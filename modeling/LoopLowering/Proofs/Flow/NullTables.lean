import LoopLowering.Flow.FlowState

namespace LoopLowering

/-!
# Tables of null facts

What is known about references is a table in ascending order without idle entries. So two
tables are equal if they know the same about every local, and what the operations on flow
states do to nullness is told local by local.
-/

namespace NullFacts

/-- The locals of the facts ascend, and each fact says something. -/
structure IsTable
    (facts : NullFacts) :
    Prop where
  ascending : facts.Pairwise fun earlier later => earlier.1 < later.1
  telling : ∀ fact ∈ facts, fact.2 ≠ .unknown

/-- Knowing nothing is a table. -/
theorem isTable_nil :
    IsTable [] :=
  ⟨.nil, by simp⟩

variable
  {facts newer : NullFacts}

/-- The facts after the first one are a table about later locals. -/
theorem IsTable.tail
    {fact : LocalId × NullStatus}
    (table : IsTable (fact :: facts)) :
    IsTable facts ∧ ∀ later ∈ facts, fact.1 < later.1 := by
  obtain ⟨ascending, telling⟩ := table
  rw [List.pairwise_cons] at ascending
  exact ⟨⟨ascending.2, fun later member => telling later (List.mem_cons_of_mem _ member)⟩,
    ascending.1⟩

/-! ### What is known about a local -/

@[simp] theorem status_nil
    (id : LocalId) :
    NullFacts.status [] id = .unknown :=
  rfl

/-- The first fact tells about its local, and the others about the rest. -/
theorem status_cons
    (fact : LocalId × NullStatus)
    (facts : NullFacts)
    (id : LocalId) :
    NullFacts.status (fact :: facts) id = if id = fact.1 then fact.2 else facts.status id := by
  obtain ⟨first, known⟩ := fact
  by_cases same : id = first
  · subst same
    simp [status]
  · have differs : (id == first) = false := beq_eq_false_iff_ne.mpr same
    simp [status, List.lookup_cons, same, differs]

/-- Nothing is known about a local without a fact. -/
theorem status_of_notMem
    {id : LocalId}
    (notMember : id ∉ facts.locals) :
    facts.status id = .unknown := by
  induction facts with
  | nil =>
      rfl
  | cons fact rest inductionHypothesis =>
      simp only [locals, List.map_cons, List.mem_cons, not_or] at notMember
      rw [status_cons, if_neg notMember.1]
      exact inductionHypothesis notMember.2

/-- Nothing is known about a local before the first fact of a table. -/
theorem status_of_forall_lt
    {id : LocalId}
    (later : ∀ fact ∈ facts, id < fact.1) :
    facts.status id = .unknown := by
  refine status_of_notMem fun member => ?_
  obtain ⟨fact, isFact, rfl⟩ := List.mem_map.mp member
  exact Nat.lt_irrefl _ (later fact isFact)

/-- Tables that know the same about every local are equal. -/
theorem IsTable.ext :
    ∀ {first second : NullFacts},
      first.IsTable →
      second.IsTable →
      (∀ id, first.status id = second.status id) →
      first = second
  | [], [], _, _, _ => rfl
  | [], (id, status) :: rest, _, table, same => by
      have known := same id
      rw [status_nil, status_cons, if_pos rfl] at known
      exact absurd known.symm (table.telling _ List.mem_cons_self)
  | (id, status) :: rest, [], table, _, same => by
      have known := same id
      rw [status_nil, status_cons, if_pos rfl] at known
      exact absurd known (table.telling _ List.mem_cons_self)
  | (id, status) :: rest, (other, otherStatus) :: others, table, otherTable, same => by
      obtain ⟨restTable, restLater⟩ := table.tail
      obtain ⟨othersTable, othersLater⟩ := otherTable.tail
      -- A local that comes first in one table only is not in the other one.
      have notBefore : ∀ {id other : LocalId} {status : NullStatus} {rest others : NullFacts},
          id < other → (∀ fact ∈ others, other < fact.1) → status ≠ .unknown →
          NullFacts.status ((id, status) :: rest) id ≠
            NullFacts.status ((other, otherStatus) :: others) id := by
        intro id other status rest others before later known equal
        rw [status_cons, if_pos rfl, status_cons, if_neg (Nat.ne_of_lt before),
          status_of_forall_lt fun fact member => Nat.lt_trans before (later fact member)] at equal
        exact known equal
      obtain before | isSame | after := Nat.lt_trichotomy id other
      · exact absurd (same id) (notBefore before othersLater (table.telling _ List.mem_cons_self))
      · subst isSame
        have sameStatus := same id
        rw [status_cons, if_pos rfl, status_cons, if_pos rfl] at sameStatus
        have sameRest : rest = others := by
          refine IsTable.ext restTable othersTable fun local_ => ?_
          by_cases isFirst : local_ = id
          · subst isFirst
            rw [status_of_forall_lt restLater, status_of_forall_lt othersLater]
          · have sameLocal := same local_
            rwa [status_cons, if_neg isFirst, status_cons, if_neg isFirst] at sameLocal
        have sameFact : status = otherStatus := sameStatus
        rw [sameFact, sameRest]
      · have known := otherTable.telling _ List.mem_cons_self
        have differs := same other
        rw [status_cons, if_neg (Nat.ne_of_lt after), status_cons, if_pos rfl,
          status_of_forall_lt fun fact member => Nat.lt_trans after (restLater fact member)]
          at differs
        exact absurd differs.symm known

/-! ### Single facts -/

/-- A recorded fact tells about its local only. -/
theorem status_record
    (id : LocalId)
    (status : NullStatus)
    (facts : NullFacts)
    (other : LocalId) :
    (facts.record id status).status other = if other = id then status else facts.status other := by
  induction facts with
  | nil =>
      exact status_cons (id, status) [] other
  | cons fact rest inductionHypothesis =>
      obtain ⟨first, known⟩ := fact
      simp only [record]
      split
      · exact status_cons (id, status) _ other
      · split
        · next isFirst =>
            subst isFirst
            rw [status_cons, status_cons]
            split
            · rfl
            · rfl
        · next notFirst =>
            rw [status_cons, status_cons, inductionHypothesis]
            by_cases same : other = first
            · simp [same, Ne.symm notFirst]
            · simp [same]

/-- What is recorded is the new fact or was there before. -/
theorem mem_record
    {id : LocalId}
    {status : NullStatus}
    {fact : LocalId × NullStatus}
    (member : fact ∈ facts.record id status) :
    fact = (id, status) ∨ fact ∈ facts := by
  induction facts with
  | nil =>
      exact .inl (List.mem_singleton.mp member)
  | cons first rest inductionHypothesis =>
      obtain ⟨other, known⟩ := first
      simp only [record] at member
      split at member
      · exact List.mem_cons.mp member
      · split at member
        · rcases List.mem_cons.mp member with isNew | inRest
          · exact .inl isNew
          · exact .inr (List.mem_cons_of_mem _ inRest)
        · rcases List.mem_cons.mp member with isFirst | inRest
          · exact .inr (isFirst ▸ List.mem_cons_self)
          · exact (inductionHypothesis inRest).imp_right (List.mem_cons_of_mem _)

/-- A table stays one when a fact is recorded. -/
theorem IsTable.record
    (table : facts.IsTable)
    (id : LocalId)
    {status : NullStatus}
    (telling : status ≠ .unknown) :
    (facts.record id status).IsTable := by
  induction facts with
  | nil =>
      exact ⟨List.pairwise_singleton _ _, by simpa [NullFacts.record] using telling⟩
  | cons fact rest inductionHypothesis =>
      obtain ⟨other, known⟩ := fact
      obtain ⟨restTable, later⟩ := table.tail
      have knows := table.telling _ List.mem_cons_self
      simp only [NullFacts.record]
      split
      · next before =>
          refine ⟨List.pairwise_cons.mpr ⟨fun fact member => ?_, table.ascending⟩,
            List.forall_mem_cons.mpr ⟨telling, table.telling⟩⟩
          rcases List.mem_cons.mp member with rfl | inRest
          · exact before
          · exact Nat.lt_trans before (later fact inRest)
      · next notBefore =>
          split
          · next same =>
              subst same
              exact ⟨List.pairwise_cons.mpr ⟨later, restTable.ascending⟩,
                List.forall_mem_cons.mpr ⟨telling, restTable.telling⟩⟩
          · next differs =>
              have recorded := inductionHypothesis restTable
              refine ⟨List.pairwise_cons.mpr ⟨fun fact member => ?_, recorded.ascending⟩,
                List.forall_mem_cons.mpr ⟨knows, recorded.telling⟩⟩
              rcases mem_record member with rfl | inRest
              · exact Nat.lt_of_le_of_ne (Nat.le_of_not_lt notBefore) (Ne.symm differs)
              · exact later fact inRest

/-- A forgotten local is the only one about which less is known. -/
theorem status_forget
    (id : LocalId)
    (facts : NullFacts)
    (other : LocalId) :
    (facts.forget id).status other = if other = id then .unknown else facts.status other := by
  induction facts with
  | nil =>
      simp [forget]
  | cons fact rest inductionHypothesis =>
      by_cases isForgotten : fact.1 = id
      · have drops : NullFacts.forget id (fact :: rest) = NullFacts.forget id rest := by
          simp [forget, isForgotten]
        rw [drops, inductionHypothesis, status_cons, isForgotten]
        split <;> rfl
      · have keeps : NullFacts.forget id (fact :: rest) = fact :: NullFacts.forget id rest := by
          simp [forget, isForgotten]
        rw [keeps, status_cons, status_cons, inductionHypothesis]
        by_cases same : other = fact.1
        · simp [same, isForgotten]
        · simp [same]

/-- What is known about a local can be replaced. -/
theorem status_set
    (id : LocalId)
    (status : NullStatus)
    (facts : NullFacts)
    (other : LocalId) :
    (facts.set id status).status other = if other = id then status else facts.status other := by
  simp only [NullFacts.set]
  split
  · next isUnknown =>
      rw [status_forget, isUnknown]
  · exact status_record id status facts other

/-- A table stays one when a fact is replaced. -/
theorem IsTable.set
    (table : facts.IsTable)
    (id : LocalId)
    (status : NullStatus) :
    (facts.set id status).IsTable := by
  simp only [NullFacts.set]
  split
  · exact ⟨table.ascending.filter _,
      fun fact member => table.telling fact (List.mem_filter.mp member).1⟩
  · next telling =>
      exact table.record id telling

/-! ### Facts of two paths -/

/-- Where facts are combined, the rule tells about the locals it is applied to. -/
theorem status_combine
    (rule : NullStatus → NullStatus → NullStatus)
    (first second : NullFacts)
    (id : LocalId) :
    ∀ (ids : List LocalId) (start : NullFacts),
      (combine rule ids first second start).status id =
        if id ∈ ids then rule (first.status id) (second.status id) else start.status id
  | [], start => by
      simp [combine]
  | other :: rest, start => by
      have step := status_combine rule first second id rest
        (start.set other (rule (first.status other) (second.status other)))
      simp only [combine, List.foldl_cons] at step ⊢
      rw [step, status_set]
      by_cases same : id = other
      · subst same
        simp
      · simp [same]

/-- Facts that are combined from a table on are a table. -/
theorem IsTable.combine
    (rule : NullStatus → NullStatus → NullStatus)
    (first second : NullFacts) :
    ∀ (ids : List LocalId) {start : NullFacts},
      start.IsTable →
      (combine rule ids first second start).IsTable
  | [], _, table => table
  | id :: rest, _, table => IsTable.combine rule first second rest (table.set id _)

/-- Where two paths meet, what they know is joined. -/
theorem status_join
    (first second : NullFacts)
    (id : LocalId) :
    (first.join second).status id = (first.status id).join (second.status id) := by
  rw [join, status_combine]
  split
  · rfl
  · next notMember =>
      simp only [List.mem_append, not_or] at notMember
      rw [status_of_notMem notMember.1, status_of_notMem notMember.2]
      rfl

/-- What is known where two paths meet is a table. -/
theorem isTable_join
    (first second : NullFacts) :
    (first.join second).IsTable :=
  IsTable.combine _ _ _ _ isTable_nil

/-- After a path that may have run, what it knows is taken into account. -/
theorem status_afterOptional
    (before optional : NullFacts)
    (id : LocalId) :
    (before.afterOptional optional).status id =
      (before.status id).afterOptional (optional.status id) := by
  rw [afterOptional, status_combine]
  split
  · rfl
  · next notMember =>
      rw [status_of_notMem notMember]
      cases before.status id <;> rfl

/-- What is known after a path that may have run is a table. -/
theorem IsTable.afterOptional
    (table : facts.IsTable)
    (optional : NullFacts) :
    (facts.afterOptional optional).IsTable :=
  IsTable.combine _ _ _ _ table

/-- After another path, what it knows is known, and otherwise what was known before. -/
theorem status_override
    (table : newer.IsTable)
    (facts : NullFacts)
    (id : LocalId) :
    (facts.override newer).status id =
      if newer.status id = .unknown then facts.status id else newer.status id := by
  induction newer generalizing facts with
  | nil =>
      rfl
  | cons fact rest inductionHypothesis =>
      obtain ⟨restTable, later⟩ := table.tail
      have telling := table.telling fact List.mem_cons_self
      have step := inductionHypothesis restTable (facts.record fact.1 fact.2)
      simp only [override, List.foldl_cons] at step ⊢
      rw [step, status_record, status_cons]
      by_cases same : id = fact.1
      · subst same
        simp [status_of_forall_lt later, telling]
      · simp [same]

/-- What is known after another path is a table. -/
theorem IsTable.override
    (table : facts.IsTable)
    (newerTable : newer.IsTable) :
    (facts.override newer).IsTable := by
  induction newer generalizing facts with
  | nil =>
      exact table
  | cons fact rest inductionHypothesis =>
      exact inductionHypothesis
        (table.record fact.1 (newerTable.telling fact List.mem_cons_self)) newerTable.tail.1

end NullFacts

namespace FlowState

/-- A flow state that the operations on flow states lead to, from one before any
assignment or from a dead end. -/
inductive IsBuilt :
    FlowState → Prop
  | initial : IsBuilt .initial
  | deadEnd : IsBuilt .deadEnd
  | unreachable {state : FlowState} : IsBuilt state → IsBuilt state.unreachable
  | assign {state : FlowState} (id : LocalId) : IsBuilt state → IsBuilt (state.assign id)
  | setNull {state : FlowState} (id : LocalId) (status : NullStatus) :
      IsBuilt state → IsBuilt (state.setNull id status)
  | withoutNulls {state : FlowState} : IsBuilt state → IsBuilt state.withoutNulls
  | merge {first second : FlowState} :
      IsBuilt first → IsBuilt second → IsBuilt (first.merge second)
  | afterRun {state run : FlowState} : IsBuilt state → IsBuilt run → IsBuilt (state.afterRun run)
  | afterOptional {state optional : FlowState} :
      IsBuilt state → IsBuilt optional → IsBuilt (state.afterOptional optional)
  | mergeBranches {first second : FlowState} (firstSkipped secondSkipped simulateDead : Bool) :
      IsBuilt first → IsBuilt second →
        IsBuilt (first.mergeBranches firstSkipped second secondSkipped simulateDead)

variable
  {first second : FlowState}

/-- What is known where two paths meet is a table if it is on each of them. -/
theorem isTable_merge
    (table : first.nulls.IsTable)
    (otherTable : second.nulls.IsTable) :
    (first.merge second).nulls.IsTable := by
  unfold merge
  split
  · exact NullFacts.isTable_join _ _
  · exact table
  · exact otherTable
  · exact NullFacts.isTable_nil

/-- What is known after code that has run is a table. -/
theorem isTable_afterRun
    (table : first.nulls.IsTable)
    (otherTable : second.nulls.IsTable) :
    (first.afterRun second).nulls.IsTable := by
  unfold afterRun
  split
  · exact table
  · split
    · exact table.override otherTable
    · exact table

/-- What is known after code that may have run is a table. -/
theorem isTable_afterOptional
    (table : first.nulls.IsTable) :
    (first.afterOptional second).nulls.IsTable := by
  unfold afterOptional
  split
  · exact table.afterOptional _
  · exact table

/-- What is known in a state that operations lead to is a table. -/
theorem IsBuilt.isTable
    {state : FlowState}
    (built : state.IsBuilt) :
    state.nulls.IsTable := by
  induction built with
  | initial | deadEnd | withoutNulls =>
      exact NullFacts.isTable_nil
  | unreachable _ table | assign _ _ table =>
      exact table
  | setNull id status _ table =>
      exact table.set id status
  | merge _ _ table otherTable =>
      exact isTable_merge table otherTable
  | afterRun _ _ table otherTable =>
      exact isTable_afterRun table otherTable
  | afterOptional _ _ table _ =>
      exact isTable_afterOptional table
  | mergeBranches firstSkipped secondSkipped simulateDead _ _ table otherTable =>
      unfold FlowState.mergeBranches
      split
      · split
        · exact otherTable
        · exact isTable_afterOptional table
      · split
        · split
          · exact table
          · exact isTable_afterOptional otherTable
        · exact isTable_merge table otherTable

end FlowState

end LoopLowering
