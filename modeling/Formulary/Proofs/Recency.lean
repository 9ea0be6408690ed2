import Formulary.Proofs.Assembly
import Formulary.Proofs.CacheTransparency
import Mathlib.Data.Finset.Card

/-!
# Which compilations share an identity

Compiling a text again gives the expression of the last time, identity included, as long as the
cache has kept it. Here that is said without the cache, by what has happened since
(`Compiler.Chronicle`): calls of the compiler, successful or not, and expressions that were made
elsewhere, each with a new identity.

Main statement: a text has the identity of its latest compilation exactly if the grammar has not
been accessed since and fewer other texts than the capacity have been compiled since; otherwise its
identity has never been handed out. Compilations that fail do not count, and those that are answered
from the cache do. The same is true of the machine words in which identities are kept, as long as
fewer identities than words have been handed out.

What carries it is that the cache is a beginning of a longer list (`Compiler.recency`), in which no
text is forgotten before the grammar is accessed: every text that was compiled, in the order of its
latest compilation (`Compiler.Chronicle.Tracks`). In that list, the texts before a text are the
other texts that were compiled since (`Compiler.recency_append`).
-/

set_option autoImplicit false
set_option relaxedAutoImplicit false

namespace Formulary.Compiler

/-! ### A run and its history -/

/-- What happens while a compiler is in use: it is called, or an expression is made without it. -/
inductive Event
  | call (call : Call)
  | elsewhere (arena : Arena)

/-- What is remembered of an event. -/
inductive Record
  /-- A text was compiled, from the cache or anew. -/
  | compiled (text : String) (id : ExpressionId)
  /-- The grammar was accessed for a change. -/
  | accessed
  /-- An expression was made elsewhere. -/
  | issued (id : ExpressionId)
  deriving DecidableEq

namespace Record

/-- The text that was compiled. -/
def text? : Record → Option String
  | .compiled text _ => some text
  | _ => none

/-- The identity that was answered or handed out. -/
def id? : Record → Option ExpressionId
  | .compiled _ id => some id
  | .accessed => none
  | .issued id => some id

end Record

/-- The text that a call compiles. A call that compiles none accesses the grammar. -/
def Call.text? : Call → Option String
  | .compile text => some text
  | .compileAndAdd _ _ text => some text
  | _ => none

/-- The session behind an event. -/
def Session.after (session : Session) : Event → Session
  | .call call => (session.step call).2
  | .elsewhere arena => { session with supply := (session.supply.issue arena).2 }

/-- What is remembered of an event. Of a text that does not compile nothing is. -/
def Session.record? (session : Session) : Event → Option Record
  | .call call =>
    match call.text? with
    | some text => (session.compiler.compile session.supply text).1.toOption.map fun expression ↦
      .compiled text expression.id
    | none => some .accessed
  | .elsewhere arena => some (.issued (session.supply.issue arena).1.id)

/-- A session and its history, the latest record first. -/
structure Chronicle where
  session : Session
  history : List Record

/-- The chronicle behind an event. -/
def Chronicle.step (chronicle : Chronicle) (event : Event) : Chronicle :=
  ⟨chronicle.session.after event, (chronicle.session.record? event).toList ++ chronicle.history⟩

/-- The chronicle behind several events. -/
def Chronicle.run (chronicle : Chronicle) (events : List Event) : Chronicle :=
  events.foldl Chronicle.step chronicle

/-- The texts that were compiled, with repetitions. -/
def texts (history : List Record) : List String := history.filterMap Record.text?

/-- Whether the latest compilation of the text had this identity, and this is what has happened
since. -/
def Latest (history : List Record) (text : String) (since : List Record) (id : ExpressionId) :
    Prop :=
  (∃ before, history = since ++ .compiled text id :: before) ∧ text ∉ texts since

/-- Whether since then the grammar was left alone and fewer texts than the capacity were
compiled. -/
def Lasts (capacity : Nat) (since : List Record) : Prop :=
  .accessed ∉ since ∧ (texts since).toFinset.card < capacity

/-! ### The texts by their latest compilation -/

/-- The texts that were compiled since the grammar was accessed last, the latest first, and the
identities of their latest compilations. -/
def recency : List Record → List (String × ExpressionId)
  | [] => []
  | .compiled text id :: earlier => (text, id) :: (recency earlier).filter (·.1 != text)
  | .accessed :: _ => []
  | .issued _ :: earlier => recency earlier

section Recency

variable {history since : List Record} {text : String} {id : ExpressionId}

theorem texts_compiled (text : String) (id : ExpressionId) (earlier : List Record) :
    texts (.compiled text id :: earlier) = text :: texts earlier := rfl

theorem not_mem_texts_of_cons {record : Record} (h : text ∉ texts (record :: since)) :
    text ∉ texts since := by
  rw [texts, List.mem_filterMap] at h ⊢
  exact fun ⟨found, hfound, htext⟩ ↦ h ⟨found, List.mem_cons_of_mem record hfound, htext⟩

theorem nodup_recency (history : List Record) : ((recency history).map Prod.fst).Nodup := by
  induction history with
  | nil => exact List.nodup_nil
  | cons record earlier ih =>
    cases record with
    | compiled text id =>
      refine List.nodup_cons.mpr ⟨fun hmem ↦ ?_, (List.filter_sublist.map Prod.fst).nodup ih⟩
      obtain ⟨entry, hentry, hsame⟩ := List.mem_map.mp hmem
      simpa [hsame] using (List.mem_filter.mp hentry).2
    | accessed => exact List.nodup_nil
    | issued id => exact ih

/-- There is one latest compilation of a text. -/
theorem Latest.unique {other : List Record} {otherId : ExpressionId}
    (h : Latest history text since id) (hother : Latest history text other otherId) :
    since = other ∧ id = otherId := by
  obtain ⟨⟨before, rfl⟩, hsince⟩ := h
  obtain ⟨⟨otherBefore, hsame⟩, hother⟩ := hother
  induction since generalizing other with
  | nil =>
    cases other with
    | nil =>
      cases hsame
      exact ⟨rfl, rfl⟩
    | cons record other =>
      cases hsame
      exact (hother List.mem_cons_self).elim
  | cons record since ih =>
    cases other with
    | nil =>
      cases hsame
      exact (hsince List.mem_cons_self).elim
    | cons otherRecord other =>
      obtain ⟨rfl, hrest⟩ := List.cons_eq_cons.mp hsame
      obtain ⟨rfl, hid⟩ := ih (not_mem_texts_of_cons hsince) (not_mem_texts_of_cons hother) hrest
      exact ⟨rfl, hid⟩

/-- The texts before a text are those that were compiled since its latest compilation. -/
theorem recency_append (haccessed : .accessed ∉ since) (htext : text ∉ texts since)
    (id : ExpressionId) (before : List Record) : ∃ newer older,
      recency (since ++ .compiled text id :: before) = newer ++ (text, id) :: older ∧
        ∀ other, other ∈ newer.map Prod.fst ↔ other ∈ texts since := by
  induction since with
  | nil => exact ⟨[], _, rfl, fun _ ↦ Iff.rfl⟩
  | cons record since ih =>
    have hsince : .accessed ∉ since := fun h ↦ haccessed (List.mem_cons_of_mem record h)
    obtain ⟨newer, older, hrecency, hnewer⟩ := ih hsince (not_mem_texts_of_cons htext)
    cases record with
    | compiled first firstId =>
      have hne : (text != first) = true := by
        rw [texts_compiled, List.mem_cons, not_or] at htext
        simpa using htext.1
      refine ⟨(first, firstId) :: newer.filter (·.1 != first), older.filter (·.1 != first), ?_,
        fun other ↦ ?_⟩
      · rw [List.cons_append, recency, hrecency, List.filter_append, List.filter_cons, if_pos hne,
          List.cons_append]
      · rw [texts_compiled, List.mem_cons, ← hnewer]
        by_cases hfirst : other = first <;> simp [hfirst]
    | accessed => exact (haccessed List.mem_cons_self).elim
    | issued firstId => exact ⟨newer, older, hrecency, hnewer⟩

/-- A text in the list has been compiled, and the grammar has been left alone since. -/
theorem exists_of_mem_recency (h : (text, id) ∈ recency history) :
    ∃ since, Latest history text since id ∧ .accessed ∉ since := by
  induction history with
  | nil => cases h
  | cons record earlier ih =>
    cases record with
    | compiled first firstId =>
      rcases List.mem_cons.mp h with hsame | hearlier
      · cases hsame
        exact ⟨[], ⟨⟨earlier, rfl⟩, List.not_mem_nil⟩, List.not_mem_nil⟩
      · obtain ⟨hmem, hother⟩ := List.mem_filter.mp hearlier
        obtain ⟨since, ⟨⟨before, rfl⟩, htext⟩, haccessed⟩ := ih hmem
        refine ⟨.compiled first firstId :: since, ⟨⟨before, rfl⟩, ?_⟩, by simpa using haccessed⟩
        rw [texts_compiled, List.mem_cons, not_or]
        exact ⟨by simpa using hother, htext⟩
    | accessed => cases h
    | issued firstId =>
      obtain ⟨since, ⟨⟨before, rfl⟩, htext⟩, haccessed⟩ := ih h
      exact ⟨.issued firstId :: since, ⟨⟨before, rfl⟩, htext⟩, by simpa using haccessed⟩

/-- Where the grammar has been left alone since, a text stands behind as many texts as were compiled
since. -/
theorem Latest.recency_eq (h : Latest history text since id) (haccessed : .accessed ∉ since) :
    ∃ newer older, recency history = newer ++ (text, id) :: older ∧
      newer.length = (texts since).toFinset.card ∧ text ∉ newer.map Prod.fst := by
  obtain ⟨⟨before, rfl⟩, htext⟩ := h
  obtain ⟨newer, older, hrecency, hnewer⟩ := recency_append haccessed htext id before
  refine ⟨newer, older, hrecency, ?_, fun hmem ↦ htext ((hnewer text).mp hmem)⟩
  have hnodup := nodup_recency (since ++ .compiled text id :: before)
  rw [hrecency, List.map_append] at hnodup
  have hsame : (newer.map Prod.fst).toFinset = (texts since).toFinset := by
    ext other
    rw [List.mem_toFinset, List.mem_toFinset, hnewer]
  rw [← hsame, List.toFinset_card_of_nodup hnodup.of_append_left, List.length_map]

/-- The first texts of the list are those with fewer others since. -/
theorem mem_take_recency_iff {capacity : Nat} : (text, id) ∈ (recency history).take capacity ↔
    ∃ since, Latest history text since id ∧ Lasts capacity since := by
  constructor
  · intro h
    obtain ⟨since, hlatest, haccessed⟩ := exists_of_mem_recency (List.mem_of_mem_take h)
    obtain ⟨newer, older, hrecency, hlength, hnew⟩ := hlatest.recency_eq haccessed
    refine ⟨since, hlatest, haccessed, ?_⟩
    rw [← hlength]
    by_contra hmany
    rw [hrecency, List.take_append_of_le_length (Nat.le_of_not_lt hmany)] at h
    exact hnew (List.mem_map_of_mem (List.mem_of_mem_take h))
  · rintro ⟨since, hlatest, haccessed, hfew⟩
    obtain ⟨newer, older, hrecency, hlength, -⟩ := hlatest.recency_eq haccessed
    rw [← hlength] at hfew
    have hroom : (newer ++ [(text, id)]).length ≤ capacity := by
      rw [List.length_append]
      exact hfew
    have htake : newer ++ [(text, id)] <+: (recency history).take capacity := by
      rw [List.prefix_take_iff, hrecency]
      exact ⟨⟨older, by simp⟩, hroom⟩
    exact htake.subset (by simp)

end Recency

/-! ### The cache is the beginning of the list -/

/-- Taking an entry out of a list without repetitions moves the others up by at most one place. -/
theorem take_filter_take {entries : List (String × ExpressionId)}
    (hnodup : (entries.map Prod.fst).Nodup) (text : String) (count : Nat) :
    ((entries.take (count + 1)).filter (·.1 != text)).take count =
      (entries.filter (·.1 != text)).take count := by
  induction entries generalizing count with
  | nil => rfl
  | cons entry entries ih =>
    rw [List.map_cons, List.nodup_cons] at hnodup
    rw [List.take_succ_cons]
    by_cases hentry : entry.1 = text
    · have hothers : ∀ other ∈ entries, (other.1 != text) = true := by
        intro other hother
        rw [bne_iff_ne, ← hentry]
        exact fun hsame ↦ hnodup.1 (hsame ▸ List.mem_map_of_mem hother)
      have hneg : ¬ (entry.1 != text) = true := by simpa using hentry
      rw [List.filter_cons, if_neg hneg, List.filter_cons, if_neg hneg,
        List.filter_eq_self.mpr hothers,
        List.filter_eq_self.mpr fun other hother ↦ hothers other (List.mem_of_mem_take hother),
        List.take_take, Nat.min_self]
    · have hpos : (entry.1 != text) = true := by simpa using hentry
      rw [List.filter_cons, if_pos hpos, List.filter_cons, if_pos hpos]
      cases count with
      | zero => rfl
      | succ count => rw [List.take_succ_cons, List.take_succ_cons, ih hnodup.2]

end Formulary.Compiler

namespace Formulary

/-- The texts of a cache and the identities of their expressions. -/
def Cache.identities (cache : Cache) : List (String × ExpressionId) :=
  cache.entries.map fun entry ↦ (entry.1, entry.2.id)

section Identities

variable {cache : Cache} {text : String} {expression : Expression}

theorem Cache.identities_put (cache : Cache) (text : String) (expression : Expression) :
    (cache.put text expression).identities =
      ((text, expression.id) :: cache.identities.filter (·.1 != text)).take cache.capacity := by
  rw [identities, put, List.map_take, List.map_cons, identities, List.filter_map]
  rfl

theorem Cache.mem_identities_of_find? (h : cache.find? text = some expression) :
    (text, expression.id) ∈ cache.identities :=
  List.mem_map_of_mem (mem_of_find? h)

theorem Cache.not_mem_identities_of_find? (h : cache.find? text = none) (id : ExpressionId) :
    (text, id) ∉ cache.identities := by
  intro hmem
  obtain ⟨entry, hentry, hsame⟩ := List.mem_map.mp hmem
  have hother := List.lookup_eq_none_iff.mp h entry hentry
  simp only [Prod.mk.injEq] at hsame
  simp [hsame.1] at hother

end Identities

namespace Compiler

/-- A call that compiles a text leaves the compiler and the supply that this leaves. -/
theorem Session.after_of_text? {session : Session} {call : Call} {text : String}
    (h : call.text? = some text) : (session.after (.call call)).compiler =
        (session.compiler.compile session.supply text).2.1 ∧
      (session.after (.call call)).supply =
        (session.compiler.compile session.supply text).2.2 := by
  cases call with
  | compile text =>
    cases h
    exact ⟨rfl, rfl⟩
  | compileAndAdd index name text =>
    cases h
    rw [after, step, compileAndAdd]
    obtain ⟨result, behind, left⟩ := session.compiler.compile session.supply text
    cases result with
    | error error => exact ⟨rfl, rfl⟩
    | ok expression => exact ⟨rfl, rfl⟩
  | _ => cases h

/-- Any other call empties the cache. -/
theorem Session.after_of_text?_eq_none {session : Session} {call : Call} (h : call.text? = none) :
    (session.after (.call call)).compiler.cache = session.compiler.cache.clear ∧
      (session.after (.call call)).supply = session.supply := by
  cases call with
  | registerOperator o => exact ⟨session.compiler.cache_tryGrammar (·.registerOperator o), rfl⟩
  | registerFunction f => exact ⟨session.compiler.cache_tryGrammar (·.registerFunction f), rfl⟩
  | modifyGrammar change => exact ⟨rfl, rfl⟩
  | _ => cases h

namespace Chronicle

/-- Whether the cache is the beginning of the list of texts, and the supply, which was `start` at
first, has handed out what it had handed out then and every identity in the history. -/
structure Tracks (capacity : Nat) (start : Supply) (chronicle : Chronicle) : Prop where
  capacity_eq : chronicle.session.compiler.cache.capacity = capacity
  identities_eq : chronicle.session.compiler.cache.identities =
    (recency chronicle.history).take capacity
  start_le : start.next ≤ chronicle.session.supply.next
  handedOut : ∀ record ∈ chronicle.history, ∀ id ∈ record.id?,
    chronicle.session.supply.HandedOut id

theorem tracks_begin (grammar : Grammar) (capacity : Nat) (supply : Supply)
    (contexts : Nat → Context) :
    Tracks capacity supply ⟨⟨new grammar capacity, supply, contexts⟩, []⟩ where
  capacity_eq := rfl
  identities_eq := List.take_nil.symm
  start_le := Nat.le_refl _
  handedOut := fun _ h ↦ by cases h

namespace Tracks

variable {capacity : Nat} {start : Supply} {chronicle : Chronicle} {behind : Session}
  {text : String} {expression : Expression}

theorem handedOut_of_latest (h : chronicle.Tracks capacity start) {since : List Record}
    {id : ExpressionId} (hlatest : Latest chronicle.history text since id) :
    chronicle.session.supply.HandedOut id := by
  obtain ⟨⟨before, hhistory⟩, -⟩ := hlatest
  exact h.handedOut (.compiled text id) (by simp [hhistory]) id rfl

/-- A text that is in the cache has the identity of its latest compilation, which has lasted. -/
theorem exists_latest_of_find? (h : chronicle.Tracks capacity start)
    (hfind : chronicle.session.compiler.cache.find? text = some expression) :
    ∃ since, Latest chronicle.history text since expression.id ∧ Lasts capacity since :=
  mem_take_recency_iff.mp (h.identities_eq ▸ Cache.mem_identities_of_find? hfind)

/-- A text that is not in the cache has no compilation that has lasted. -/
theorem not_lasts_of_find? (h : chronicle.Tracks capacity start)
    (hfind : chronicle.session.compiler.cache.find? text = none) {since : List Record}
    {id : ExpressionId} (hlatest : Latest chronicle.history text since id) :
    ¬ Lasts capacity since := by
  intro hlasts
  refine Cache.not_mem_identities_of_find? hfind id ?_
  rw [h.identities_eq]
  exact mem_take_recency_iff.mpr ⟨since, hlatest, hlasts⟩

/-- Assumes: a text was compiled to an expression whose identity has been handed out, and the
expression was put into the cache. -/
theorem compiled (h : chronicle.Tracks capacity start)
    (hcache : behind.compiler.cache = chronicle.session.compiler.cache.put text expression)
    (hsupply : chronicle.session.supply.next ≤ behind.supply.next)
    (hid : behind.supply.HandedOut expression.id) :
    Tracks capacity start ⟨behind, .compiled text expression.id :: chronicle.history⟩ where
  capacity_eq := (congrArg Cache.capacity hcache).trans h.capacity_eq
  identities_eq := by
    rw [hcache, Cache.identities_put, h.identities_eq, h.capacity_eq, recency]
    cases capacity with
    | zero => rfl
    | succ count =>
      rw [List.take_succ_cons, List.take_succ_cons, take_filter_take (nodup_recency _)]
  start_le := Nat.le_trans h.start_le hsupply
  handedOut := by
    intro record hrecord id hrecordId
    rcases List.mem_cons.mp hrecord with rfl | hearlier
    · cases hrecordId
      exact hid
    · exact Nat.lt_of_lt_of_le (h.handedOut record hearlier id hrecordId) hsupply

theorem compile (h : chronicle.Tracks capacity start) {call : Call}
    (htext : call.text? = some text) :
    (chronicle.step (.call call)).Tracks capacity start := by
  obtain ⟨hcompiler, hsupply⟩ := chronicle.session.after_of_text? htext
  have hrecord : chronicle.session.record? (.call call) =
      (chronicle.session.compiler.compile chronicle.session.supply text).1.toOption.map
        fun expression ↦ .compiled text expression.id := by
    rw [Session.record?, htext]
  rw [Chronicle.step, hrecord]
  rcases Compiler.compile_cases chronicle.session.compiler chronicle.session.supply text with
    ⟨expression, hfind, hcompile⟩ | ⟨error, -, -, hcompile⟩ | ⟨arena, -, -, hcompile⟩
  · rw [hcompile] at hcompiler hsupply ⊢
    obtain ⟨since, hlatest, -⟩ := h.exists_latest_of_find? hfind
    have hid := h.handedOut_of_latest hlatest
    exact h.compiled (congrArg Compiler.cache hcompiler) (by rw [hsupply]) (by rwa [hsupply])
  · rw [hcompile] at hcompiler hsupply ⊢
    exact ⟨by rw [hcompiler]; exact h.capacity_eq, by rw [hcompiler]; exact h.identities_eq,
      by rw [hsupply]; exact h.start_le, by rw [hsupply]; exact h.handedOut⟩
  · rw [hcompile] at hcompiler hsupply ⊢
    have hnext : (chronicle.session.after (.call call)).supply.next =
        chronicle.session.supply.next + 1 := by
      rw [hsupply]
      rfl
    exact h.compiled (congrArg Compiler.cache hcompiler) (by omega)
      (by rw [Supply.HandedOut, hnext]; exact Nat.lt_succ_self _)

theorem access (h : chronicle.Tracks capacity start) {call : Call} (htext : call.text? = none) :
    (chronicle.step (.call call)).Tracks capacity start := by
  obtain ⟨hcache, hsupply⟩ := chronicle.session.after_of_text?_eq_none htext
  have hrecord : chronicle.session.record? (.call call) = some .accessed := by
    rw [Session.record?, htext]
  rw [Chronicle.step, hrecord]
  refine ⟨by rw [hcache]; exact h.capacity_eq, by rw [hcache]; exact List.take_nil.symm,
    by rw [hsupply]; exact h.start_le, fun record hmem id hid ↦ ?_⟩
  rw [hsupply]
  rcases List.mem_cons.mp hmem with rfl | hearlier
  · cases hid
  · exact h.handedOut record hearlier id hid

theorem elsewhere (h : chronicle.Tracks capacity start) (arena : Arena) :
    (chronicle.step (.elsewhere arena)).Tracks capacity start := by
  refine ⟨h.capacity_eq, h.identities_eq, Nat.le_succ_of_le h.start_le, fun record hmem id hid ↦ ?_⟩
  rcases List.mem_cons.mp hmem with rfl | hearlier
  · cases hid
    exact Nat.lt_succ_self _
  · exact Nat.lt_succ_of_lt (h.handedOut record hearlier id hid)

theorem step (h : chronicle.Tracks capacity start) (event : Event) :
    (chronicle.step event).Tracks capacity start := by
  cases event with
  | call call =>
    cases htext : call.text? with
    | some text => exact h.compile htext
    | none => exact h.access htext
  | elsewhere arena => exact h.elsewhere arena

theorem run (h : chronicle.Tracks capacity start) (events : List Event) :
    (chronicle.run events).Tracks capacity start := by
  induction events generalizing chronicle with
  | nil => exact h
  | cons event events ih => exact ih (h.step event)

/-- A text that compiles has the identity of a compilation of it that has lasted, or, if none has,
the next identity of the supply. -/
theorem id_cases (h : chronicle.Tracks capacity start)
    (hok : (chronicle.session.compiler.compile chronicle.session.supply text).1 = .ok expression) :
    (∃ since, Latest chronicle.history text since expression.id ∧ Lasts capacity since) ∨
      expression.id = ⟨chronicle.session.supply.next⟩ ∧
        ∀ since id, Latest chronicle.history text since id → ¬ Lasts capacity since := by
  rcases Compiler.compile_cases chronicle.session.compiler chronicle.session.supply text with
    ⟨kept, hfind, hcompile⟩ | ⟨error, -, -, hcompile⟩ | ⟨arena, hfind, -, hcompile⟩
  · rw [hcompile] at hok
    cases hok
    exact Or.inl (h.exists_latest_of_find? hfind)
  · rw [hcompile] at hok
    cases hok
  · rw [hcompile] at hok
    cases hok
    exact Or.inr ⟨rfl, fun _ _ hlatest ↦ h.not_lasts_of_find? hfind hlatest⟩

theorem id_eq_iff (h : chronicle.Tracks capacity start)
    (hok : (chronicle.session.compiler.compile chronicle.session.supply text).1 = .ok expression)
    {since : List Record} {id : ExpressionId} (hlatest : Latest chronicle.history text since id) :
    expression.id = id ↔ Lasts capacity since := by
  obtain ⟨found, hfound, hlasts⟩ | ⟨hid, hgone⟩ := h.id_cases hok
  · obtain ⟨rfl, rfl⟩ := hfound.unique hlatest
    exact iff_of_true rfl hlasts
  · refine iff_of_false (fun hsame ↦ ?_) (hgone since id hlatest)
    have hold := h.handedOut_of_latest hlatest
    rw [← hsame, hid] at hold
    exact Nat.lt_irrefl _ hold

theorem not_handedOut_of_ne (h : chronicle.Tracks capacity start)
    (hok : (chronicle.session.compiler.compile chronicle.session.supply text).1 = .ok expression)
    (hne : ∀ since id, Latest chronicle.history text since id → expression.id ≠ id) :
    ¬ chronicle.session.supply.HandedOut expression.id := by
  obtain ⟨since, hlatest, -⟩ | ⟨hid, -⟩ := h.id_cases hok
  · exact (hne since _ hlatest rfl).elim
  · exact hid ▸ chronicle.session.supply.not_handedOut_issue expression.arena

/-- Assumes: fewer identities have been handed out than there are machine words, so that the next
one has a word of its own as well. -/
theorem word_eq_iff (h : chronicle.Tracks capacity start)
    (hok : (chronicle.session.compiler.compile chronicle.session.supply text).1 = .ok expression)
    (hfew : chronicle.session.supply.next < UInt64.size) {id : ExpressionId}
    (hid : chronicle.session.supply.HandedOut id) :
    expression.id.word = id.word ↔ expression.id = id := by
  have hnumber : expression.id.number ≤ chronicle.session.supply.next := by
    obtain ⟨since, hlatest, -⟩ | ⟨hnext, -⟩ := h.id_cases hok
    · exact Nat.le_of_lt (h.handedOut_of_latest hlatest)
    · rw [hnext]
  refine ⟨fun hword ↦ ?_, congrArg ExpressionId.word⟩
  exact ExpressionId.eq_of_word_eq (Nat.lt_of_le_of_lt hnumber hfew) (Nat.lt_trans hid hfew) hword

end Tracks

end Chronicle

/-- Whatever the grammar at first, the capacity and what happens: the cache has no more entries than
its capacity, and a text that compiles has the identity of its latest compilation exactly if the
grammar has not been accessed since and fewer other texts than the capacity have been compiled
since. In every other case its identity is new: the supply has handed out the identities that were
handed out before and all that are in the history, but not this one. As long as fewer identities
have been handed out than there are machine words, the same is true of the words of identities. -/
theorem compile_id_iff_lasts (grammar : Grammar) (capacity : Nat) (supply : Supply)
    (contexts : Nat → Context) (events : List Event) :
    let last := Chronicle.run ⟨⟨new grammar capacity, supply, contexts⟩, []⟩ events
    last.session.compiler.cache.entries.length ≤ capacity ∧
      (∀ id, supply.HandedOut id → last.session.supply.HandedOut id) ∧
      (∀ record ∈ last.history, ∀ id ∈ record.id?, last.session.supply.HandedOut id) ∧
      ∀ text expression,
        (last.session.compiler.compile last.session.supply text).1 = .ok expression →
          (∀ since id, Latest last.history text since id →
            (expression.id = id ↔ Lasts capacity since)) ∧
          ((∀ since id, Latest last.history text since id → expression.id ≠ id) →
            ¬ last.session.supply.HandedOut expression.id) ∧
          (last.session.supply.next < UInt64.size →
            (∀ since id, Latest last.history text since id →
              (expression.id.word = id.word ↔ Lasts capacity since)) ∧
            ((∀ since id, Latest last.history text since id → expression.id.word ≠ id.word) →
              ∀ other, last.session.supply.HandedOut other →
                expression.id.word ≠ other.word)) := by
  intro last
  have htracks : last.Tracks capacity supply :=
    (Chronicle.tracks_begin grammar capacity supply contexts).run events
  have hlength := congrArg List.length htracks.identities_eq
  rw [Cache.identities, List.length_map] at hlength
  refine ⟨hlength ▸ List.length_take_le _ _, fun id hid ↦ Nat.lt_of_lt_of_le hid htracks.start_le,
    htracks.handedOut, fun text expression hok ↦ ?_⟩
  have hnew : (∀ since id, Latest last.history text since id → expression.id ≠ id) →
      ¬ last.session.supply.HandedOut expression.id := htracks.not_handedOut_of_ne hok
  refine ⟨fun since id hlatest ↦ htracks.id_eq_iff hok hlatest, hnew, fun hfew ↦
    ⟨fun since id hlatest ↦ ?_, fun hother id hold hsame ↦ ?_⟩⟩
  · rw [htracks.word_eq_iff hok hfew (htracks.handedOut_of_latest hlatest)]
    exact htracks.id_eq_iff hok hlatest
  · rw [htracks.word_eq_iff hok hfew hold] at hsame
    refine hnew (fun since id hlatest hid ↦ hother since id hlatest (congrArg _ hid)) ?_
    rwa [hsame]

/-- Room for two texts, of which the first is used again before a third comes: the first has its
identity again, and the second has a new one. -/
theorem compile_id_iff_lasts_used_again :
    let last := Chronicle.run ⟨⟨new .standard 2, .full, fun _ ↦ .empty⟩, []⟩
      [.call (.compile "1"), .call (.compile "2"), .call (.compile "1"), .call (.compile "3")]
    ∃ first second : Expression,
      (last.session.compiler.compile last.session.supply "1").1 = .ok first ∧ first.id = ⟨0⟩ ∧
      (last.session.compiler.compile last.session.supply "2").1 = .ok second ∧
      ¬ last.session.supply.HandedOut second.id ∧
      ∀ other, last.session.supply.HandedOut other → second.id.word ≠ other.word := by
  intro last
  have hhistory : last.history =
      [.compiled "3" ⟨2⟩, .compiled "1" ⟨0⟩, .compiled "2" ⟨1⟩, .compiled "1" ⟨0⟩] := by
    decide +kernel
  have hcompiles : (last.session.compiler.compile last.session.supply "1").1.isOk = true ∧
      (last.session.compiler.compile last.session.supply "2").1.isOk = true := by decide +kernel
  obtain ⟨first, hfirst⟩ : ∃ first, (last.session.compiler.compile last.session.supply "1").1 =
      .ok first := exists_of_isOk hcompiles.1
  obtain ⟨second, hsecond⟩ : ∃ second,
      (last.session.compiler.compile last.session.supply "2").1 = .ok second :=
    exists_of_isOk hcompiles.2
  have hids := (compile_id_iff_lasts .standard 2 .full (fun _ ↦ .empty)
    [.call (.compile "1"), .call (.compile "2"), .call (.compile "1"), .call (.compile "3")]).2.2.2
  have hlatestFirst : Latest last.history "1" [.compiled "3" ⟨2⟩] ⟨0⟩ :=
    ⟨⟨[.compiled "2" ⟨1⟩, .compiled "1" ⟨0⟩], hhistory⟩, by decide⟩
  have hlatestSecond : Latest last.history "2" [.compiled "3" ⟨2⟩, .compiled "1" ⟨0⟩] ⟨1⟩ :=
    ⟨⟨[.compiled "1" ⟨0⟩], hhistory⟩, by decide⟩
  have hgone : ¬ Lasts 2 [.compiled "3" ⟨2⟩, .compiled "1" ⟨0⟩] := fun h ↦
    absurd h.2 (by decide)
  have hfew : last.session.supply.next < UInt64.size := by decide +kernel
  obtain ⟨hlasts, hnew, hwords⟩ := hids "2" second hsecond
  refine ⟨first, second, hfirst, ?_, hsecond, ?_, ?_⟩
  · exact ((hids "1" first hfirst).1 _ _ hlatestFirst).mpr ⟨by decide, by decide⟩
  · refine hnew fun since id hlatest hsame ↦ hgone ?_
    obtain ⟨rfl, rfl⟩ := hlatestSecond.unique hlatest
    exact (hlasts _ _ hlatestSecond).mp hsame
  · refine (hwords hfew).2 fun since id hlatest hsame ↦ hgone ?_
    obtain ⟨rfl, rfl⟩ := hlatestSecond.unique hlatest
    exact ((hwords hfew).1 _ _ hlatestSecond).mp hsame

end Compiler

end Formulary
