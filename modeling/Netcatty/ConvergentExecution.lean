import Netcatty.ConvergentReplica

/-!
Executions: any interleaving of batches and joins with one writer per device.

Every produced state is a replica of one history (`Execution.exists_history`),
so joining produced states is taking unions of sets of dots: it never fails, and
it is commutative, associative and idempotent (`merge_laws`).  Vector dominance
is inclusion of these sets, hence a proof of containment
(`merge_of_versionVectorDominates`).
-/

namespace Netcatty

open List

/-- The states one execution has produced, latest first.  A device's batch is
applied to a state that holds all dots the device has used. -/
inductive Execution : List ConvergentSyncState → Prop where
  | create : Execution [createConvergentSyncState]
  | apply {states : List ConvergentSyncState} {state state' : ConvergentSyncState}
      {deviceId : JsString} {mutations : List ConvergentMutation} {now : JsNumber} :
      Execution states → state ∈ states →
      (∀ other ∈ states, other.vector.counter deviceId ≤ state.vector.counter deviceId) →
      applyConvergentMutations state deviceId mutations now = .ok state' →
      Execution (state' :: states)
  | merge {states : List ConvergentSyncState} {left right merged : ConvergentSyncState} :
      Execution states → left ∈ states → right ∈ states →
      mergeConvergentSyncStates left right = .ok merged →
      Execution (merged :: states)

theorem Execution.exists_history {states : List ConvergentSyncState} (execution : Execution states) :
    ∃ history, ∀ state ∈ states, IsReplica history state := by
  induction execution with
  | create => exact ⟨default, by simpa using isReplica_create default⟩
  | apply _ mem single ran ih =>
    obtain ⟨history, replicas⟩ := ih
    obtain ⟨history', replica, others⟩ := (replicas _ mem).apply ran
    refine ⟨history', fun other inStates => ?_⟩
    rcases mem_cons.mp inStates with rfl | earlier
    · exact replica
    · exact others other (replicas other earlier) (single other earlier)
  | merge _ memLeft memRight ran ih =>
    obtain ⟨history, replicas⟩ := ih
    obtain ⟨joined, ran', replica, _⟩ := (replicas _ memLeft).merge (replicas _ memRight)
    cases ran.symm.trans ran'
    refine ⟨history, fun other inStates => ?_⟩
    rcases mem_cons.mp inStates with rfl | earlier
    · exact replica
    · exact replicas other earlier

theorem IsReplica.serialize {history : History} {state : ConvergentSyncState}
    (replica : IsReplica history state) : serializeConvergentSyncState state = .ok state :=
  canonicalizeConvergentSyncState_eq_ok.mpr ⟨replica.valid, replica.canonical.symm⟩

section Replicas

variable {history : History} {A B C : ConvergentSyncState}

theorem IsReplica.merge_eq (left : IsReplica history A) (right : IsReplica history B)
    (both : IsReplica history C) (dots : C.vector.dots = A.vector.dots ∪ B.vector.dots) :
    mergeConvergentSyncStates A B = .ok C := by
  obtain ⟨merged, ran, replica, mergedDots⟩ := left.merge right
  rw [ran, replica.ext both (mergedDots.trans dots.symm)]

end Replicas

section Laws

variable {states : List ConvergentSyncState} {A B C : ConvergentSyncState}

/-- **Joining the states of an execution never fails, and up to serialization it is
commutative, associative and idempotent.** -/
theorem merge_laws (execution : Execution states) (a : A ∈ states) (b : B ∈ states)
    (c : C ∈ states) :
    (∃ text, (mergeConvergentSyncStates A B >>= serializeConvergentSyncState) = .ok text ∧
      (mergeConvergentSyncStates B A >>= serializeConvergentSyncState) = .ok text) ∧
    (∃ AB BC text, mergeConvergentSyncStates A B = .ok AB ∧ mergeConvergentSyncStates B C = .ok BC ∧
      (mergeConvergentSyncStates AB C >>= serializeConvergentSyncState) = .ok text ∧
      (mergeConvergentSyncStates A BC >>= serializeConvergentSyncState) = .ok text) ∧
    (mergeConvergentSyncStates A A >>= serializeConvergentSyncState) = serializeConvergentSyncState A ∧
    ∃ text, serializeConvergentSyncState A = .ok text := by
  obtain ⟨history, replicas⟩ := execution.exists_history
  have first := replicas A a
  have second := replicas B b
  have third := replicas C c
  obtain ⟨AB, ranAB, replicaAB, dotsAB⟩ := first.merge second
  obtain ⟨BC, ranBC, replicaBC, dotsBC⟩ := second.merge third
  obtain ⟨ABC, ranABC, replicaABC, dotsABC⟩ := replicaAB.merge third
  have swapped := second.merge_eq first replicaAB (dotsAB.trans (Set.union_comm _ _))
  have regrouped : mergeConvergentSyncStates A BC = .ok ABC := by
    refine first.merge_eq replicaBC replicaABC ?_
    rw [dotsABC, dotsAB, dotsBC, Set.union_assoc]
  have same := first.merge_eq first first (Set.union_self _).symm
  refine ⟨⟨AB, ?_, ?_⟩, ⟨AB, BC, ABC, ranAB, ranBC, ?_, ?_⟩, ?_, A, first.serialize⟩
  · rw [ranAB, ok_bind, replicaAB.serialize]
  · rw [swapped, ok_bind, replicaAB.serialize]
  · rw [ranABC, ok_bind, replicaABC.serialize]
  · rw [regrouped, ok_bind, replicaABC.serialize]
  · rw [same, ok_bind]

/-- **Dominance proves containment**: joining a state into one whose vector
dominates changes nothing, and states with equal vectors serialize identically. -/
theorem merge_of_versionVectorDominates {S T : ConvergentSyncState} (execution : Execution states)
    (s : S ∈ states) (t : T ∈ states) :
    (versionVectorDominates T.vector S.vector = true →
      ∃ text, (mergeConvergentSyncStates S T >>= serializeConvergentSyncState) = .ok text ∧
        serializeConvergentSyncState T = .ok text) ∧
    (versionVectorsEqual S.vector T.vector = true →
      ∃ text, serializeConvergentSyncState S = .ok text ∧
        serializeConvergentSyncState T = .ok text) := by
  obtain ⟨history, replicas⟩ := execution.exists_history
  have first := replicas S s
  have second := replicas T t
  refine ⟨fun dominates => ⟨T, ?_, second.serialize⟩, fun equal => ⟨T, ?_, second.serialize⟩⟩
  · have sub := dots_subset_iff.mpr (versionVectorDominates_iff.mp dominates)
    rw [first.merge_eq second second (Set.union_eq_self_of_subset_left sub).symm, ok_bind,
      second.serialize]
  · simp only [versionVectorsEqual, Bool.and_eq_true] at equal
    have dots : S.vector.dots = T.vector.dots := Set.Subset.antisymm
      (dots_subset_iff.mpr (versionVectorDominates_iff.mp equal.2))
      (dots_subset_iff.mpr (versionVectorDominates_iff.mp equal.1))
    rw [← first.ext second dots]
    exact first.serialize

end Laws

/-! ## What an execution is an implementation of -/

/-- The state is a cut of a history of writes, and each of its registers retains exactly the writes of the
cut that no other write of the cut has observed. -/
structure CutOf (history : History) (state : ConvergentSyncState) : Prop where
  closed : ∀ dot ∈ state.vector.dots, ∀ seen ∈ (history dot).context, seen ∈ state.vector.dots ∧ seen ≠ dot ∧
    (history seen).address = (history dot).address ∧ (history seen).context ⊆ (history dot).context
  retained : ∀ address c, c ∈ candidatesAt state address ↔
    ∃ dot ∈ state.vector.dots, (history dot).address = address ∧
      (∀ later ∈ state.vector.dots, dot ∉ (history later).context) ∧ c = history.candidate dot

/-- **All states of an execution are cuts of one history.** -/
theorem registers_refine_history {states : List ConvergentSyncState} (execution : Execution states) :
    ∃ history : History, ∀ state ∈ states, CutOf history state := by
  obtain ⟨history, replicas⟩ := execution.exists_history
  refine ⟨history, fun state mem => ?_⟩
  have represents := (replicas state mem).represents
  refine ⟨fun dot covered seen observed => ?_, fun address c => ?_⟩
  · refine ⟨represents.cut.closed dot covered observed, ?_,
      represents.cut.sameRegister dot covered seen observed,
      represents.cut.transitive dot covered seen observed⟩
    rintro rfl
    exact represents.cut.irreflexive seen covered observed
  · rw [represents.candidates]
    constructor
    · rintro ⟨dot, ⟨covered, written, top⟩, same⟩
      exact ⟨dot, covered, written, top, same⟩
    · rintro ⟨dot, covered, written, top, same⟩
      exact ⟨dot, ⟨covered, written, top⟩, same⟩

/-- What a device holds that has joined the states of a set, in some order and grouping and each at
least once. -/
inductive Gathered : Set ConvergentSyncState → ConvergentSyncState → Prop where
  | start (state : ConvergentSyncState) : Gathered {state} state
  | join {A B : Set ConvergentSyncState} {left right merged : ConvergentSyncState} :
      Gathered A left → Gathered B right → mergeConvergentSyncStates left right = .ok merged →
      Gathered (A ∪ B) merged

/-- What is gathered covers the dots of its sources. -/
theorem Gathered.replica {history : History} {A : Set ConvergentSyncState} {state : ConvergentSyncState}
    (gathered : Gathered A state) (replicas : ∀ source ∈ A, IsReplica history source) :
    IsReplica history state ∧ state.vector.dots = ⋃ source ∈ A, source.vector.dots := by
  induction gathered with
  | start state => exact ⟨replicas state rfl, by simp⟩
  | join _ _ ran ihLeft ihRight =>
    obtain ⟨left, dots⟩ := ihLeft fun source mem => replicas source (.inl mem)
    obtain ⟨right, dots'⟩ := ihRight fun source mem => replicas source (.inr mem)
    obtain ⟨joined, ran', replica, both⟩ := left.merge right
    cases ran.symm.trans ran'
    exact ⟨replica, by rw [both, dots, dots', Set.biUnion_union]⟩

/-- **Devices that gathered the same states hold the same state, however the states reached them**:
two gathered states can always be joined, the one with fewer sources is absorbed, and with the same
sources they are equal. -/
theorem gathered_converge {states : List ConvergentSyncState} {A B : Set ConvergentSyncState}
    {left right : ConvergentSyncState} (execution : Execution states)
    (first : Gathered A left) (second : Gathered B right) (produced : ∀ source ∈ A ∪ B, source ∈ states) :
    (∃ merged, mergeConvergentSyncStates left right = .ok merged) ∧
      (A ⊆ B → mergeConvergentSyncStates left right = .ok right) ∧ (A = B → left = right) := by
  obtain ⟨history, replicas⟩ := execution.exists_history
  obtain ⟨mine, dots⟩ := first.replica fun source mem => replicas source (produced source (.inl mem))
  obtain ⟨theirs, dots'⟩ := second.replica fun source mem => replicas source (produced source (.inr mem))
  refine ⟨?_, fun fewer => ?_, fun same => ?_⟩
  · obtain ⟨merged, ran, -⟩ := mine.merge theirs
    exact ⟨merged, ran⟩
  · refine mine.merge_eq theirs theirs (Set.union_eq_self_of_subset_left ?_).symm
    rw [dots, dots']
    exact Set.biUnion_subset_biUnion_left fewer
  · subst same
    exact mine.ext theirs (dots.trans dots'.symm)

/-! ## Two devices that edit one setting offline -/

/-- The state of a fresh device after its first edit of the theme. -/
def themeEdit (deviceId theme : JsString) : ConvergentSyncState where
  vector := SortedMap.empty.set deviceId 1
  dotOrigins := SortedMap.empty.set deviceId
    (SortedMap.empty.set 1 (registerId (.setting [text "theme"])))
  hlc := ⟨1, 0⟩
  collections := .empty
  settings := SortedMap.empty.set (settingKey [text "theme"])
    { candidates := [⟨{ deviceId, counter := 1 }, [], ⟨1, 0⟩, some (.str theme)⟩] }
  stringCollections := .empty

theorem execution_themeEdits : Execution [themeEdit (text "b") (text "light"),
    themeEdit (text "a") (text "dark"), createConvergentSyncState] := by
  have first : Execution [themeEdit (text "a") (text "dark"), createConvergentSyncState] :=
    .apply .create (mem_singleton.mpr rfl) (by decide +kernel) (show applyConvergentMutations
      createConvergentSyncState (text "a") [.settingSet [text "theme"] (.str (text "dark"))]
      (.finite 1) = .ok (themeEdit (text "a") (text "dark")) by decide +kernel)
  exact .apply first (mem_cons_of_mem _ (mem_singleton.mpr rfl)) (by decide +kernel)
    (show applyConvergentMutations createConvergentSyncState (text "b")
      [.settingSet [text "theme"] (.str (text "light"))] (.finite 1) =
        .ok (themeEdit (text "b") (text "light")) by decide +kernel)

/-- The two edits join to one text in either order and grouping. -/
theorem merge_laws_themeEdits :
    (∃ text', (mergeConvergentSyncStates (themeEdit (text "a") (text "dark"))
          (themeEdit (text "b") (text "light")) >>= serializeConvergentSyncState) = .ok text' ∧
      (mergeConvergentSyncStates (themeEdit (text "b") (text "light"))
          (themeEdit (text "a") (text "dark")) >>= serializeConvergentSyncState) = .ok text') ∧
    (∃ AB BC text', mergeConvergentSyncStates (themeEdit (text "a") (text "dark"))
        (themeEdit (text "b") (text "light")) = .ok AB ∧
      mergeConvergentSyncStates (themeEdit (text "b") (text "light")) createConvergentSyncState =
        .ok BC ∧
      (mergeConvergentSyncStates AB createConvergentSyncState >>= serializeConvergentSyncState) =
        .ok text' ∧
      (mergeConvergentSyncStates (themeEdit (text "a") (text "dark")) BC >>=
        serializeConvergentSyncState) = .ok text') ∧
    (mergeConvergentSyncStates (themeEdit (text "a") (text "dark"))
        (themeEdit (text "a") (text "dark")) >>= serializeConvergentSyncState) =
      serializeConvergentSyncState (themeEdit (text "a") (text "dark")) ∧
    ∃ text', serializeConvergentSyncState (themeEdit (text "a") (text "dark")) = .ok text' :=
  merge_laws execution_themeEdits (by simp) (by simp) (by simp)

/-- The edit dominates the empty state, and the vector of an edit equals itself. -/
theorem merge_of_versionVectorDominates_themeEdit :
    (∃ text', (mergeConvergentSyncStates createConvergentSyncState
          (themeEdit (text "a") (text "dark")) >>= serializeConvergentSyncState) = .ok text' ∧
      serializeConvergentSyncState (themeEdit (text "a") (text "dark")) = .ok text') ∧
    ∃ text', serializeConvergentSyncState (themeEdit (text "b") (text "light")) = .ok text' ∧
      serializeConvergentSyncState (themeEdit (text "b") (text "light")) = .ok text' :=
  ⟨(merge_of_versionVectorDominates execution_themeEdits (by simp) (by simp)).1 (by decide +kernel),
    (merge_of_versionVectorDominates execution_themeEdits (by simp) (by simp)).2 (by decide +kernel)⟩

/-- The history of the two edits. -/
theorem registers_refine_history_themeEdits :
    ∃ history : History, ∀ state ∈ [themeEdit (text "b") (text "light"), themeEdit (text "a") (text "dark"),
      createConvergentSyncState], CutOf history state :=
  registers_refine_history execution_themeEdits

/-- A fresh device, and one that has joined it with an edit: the join is the latter. -/
theorem gathered_converge_themeEdit :
    mergeConvergentSyncStates createConvergentSyncState (themeEdit (text "a") (text "dark")) =
      .ok (themeEdit (text "a") (text "dark")) :=
  (gathered_converge execution_themeEdits (.start createConvergentSyncState)
    (.join (.start createConvergentSyncState) (.start (themeEdit (text "a") (text "dark")))
      (by decide +kernel))
    (by rintro source (rfl | rfl | rfl) <;> simp)).2.1 Set.subset_union_left

end Netcatty
