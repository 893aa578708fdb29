import LockOrder.Outsiders.Act
import LockOrder.Proofs.Serial.Contents
import LockOrder.Worker.Body

set_option autoImplicit false

namespace LockOrder

inductive Mark where
  | committed (accesses : List Access)
  -- The record of a conflict is not known.
  | heated (slot : Option Nat)

namespace Mark

-- The records change so and in no other way, except for their locks.
def Takes : Mark → Store → Store → Prop
  | .committed accesses, store, next => next.bare = store.bare.commit accesses
  | .heated (some slot), store, next => next.bare = store.bare.bump slot
  | .heated none, store, next => ∃ slot, next.bare = store.bare.bump slot

def Lead : List Mark → Store → Store → Prop
  | [], store, next => next.bare = store.bare
  | mark :: rest, store, next => ∃ mid, mark.Takes store mid ∧ Lead rest mid next

def accesses? : Mark → Option (List Access)
  | .committed accesses => some accesses
  | .heated _ => none

def commits (marks : List Mark) : List (List Access) := marks.filterMap accesses?

@[simp] theorem commits_append (first second : List Mark) :
    commits (first ++ second) = commits first ++ commits second := by
  simp [commits]

theorem lead_append {first second : List Mark} {store mid next : Store} (early : Lead first store mid)
    (late : Lead second mid next) : Lead (first ++ second) store next := by
  induction first generalizing store with
  | nil =>
      cases second with
      | nil => exact late.trans early
      | cons mark rest =>
          obtain ⟨after, takes, lead⟩ := late
          refine ⟨after, ?_, lead⟩
          cases mark with
          | committed accesses => exact takes.trans (congrArg _ early)
          | heated slot =>
              cases slot with
              | some slot => exact takes.trans (congrArg (Store.bump · slot) early)
              | none =>
                  obtain ⟨slot, heated⟩ := takes
                  exact ⟨slot, heated.trans (congrArg (Store.bump · slot) early)⟩
  | cons mark rest ih =>
      obtain ⟨after, takes, lead⟩ := early
      exact ⟨after, takes, ih lead⟩

theorem lead_single {mark : Mark} {store next : Store} (takes : mark.Takes store next) :
    Lead [mark] store next :=
  ⟨next, takes, rfl⟩

theorem contents_of_takes {mark : Mark} {store next : Store} (takes : mark.Takes store next) :
    next.contents = store.contents.replay (commits [mark]) := by
  cases mark with
  | committed accesses =>
      have same : next.bare = store.bare.commit accesses := takes
      rw [← Store.contents_bare next, same, Store.contents_commit, Store.contents_bare]
      rfl
  | heated slot =>
      obtain ⟨slot, same⟩ : ∃ slot, next.bare = store.bare.bump slot := by
        cases slot with
        | some slot => exact ⟨slot, takes⟩
        | none => exact takes
      rw [← Store.contents_bare next, same, Store.contents_bump, Store.contents_bare]
      rfl

theorem contents_of_lead {marks : List Mark} {store next : Store} (lead : Lead marks store next) :
    next.contents = store.contents.replay (commits marks) := by
  induction marks generalizing store with
  | nil => exact Store.contents_of_bare lead
  | cons mark rest ih =>
      obtain ⟨mid, takes, lead⟩ := lead
      have split : commits (mark :: rest) = commits [mark] ++ commits rest :=
        commits_append [mark] rest
      rw [ih lead, contents_of_takes takes, split, Contents.replay_append]

theorem ids_of_takes {mark : Mark} {store next : Store} (takes : mark.Takes store next) :
    next.ids = store.ids := by
  cases mark with
  | committed accesses =>
      have same : next.bare = store.bare.commit accesses := takes
      rw [← Store.ids_bare next, same, Store.ids_commit, Store.ids_bare]
  | heated slot =>
      obtain ⟨slot, same⟩ : ∃ slot, next.bare = store.bare.bump slot := by
        cases slot with
        | some slot => exact ⟨slot, takes⟩
        | none => exact takes
      rw [← Store.ids_bare next, same, Store.ids_bump, Store.ids_bare]

theorem ids_of_lead {marks : List Mark} {store next : Store} (lead : Lead marks store next) :
    next.ids = store.ids := by
  induction marks generalizing store with
  | nil => exact Store.ids_of_bare lead
  | cons mark rest ih =>
      obtain ⟨mid, takes, lead⟩ := lead
      exact (ih lead).trans (ids_of_takes takes)

end Mark

def Act.marks (table : Table) : Act → Reply → List Mark
  | .install key value, .version (some _) =>
      match table.slot key with
      | .ok slot => [.committed [.write slot value]]
      | .error _ => []
  | .bump key, .level _ =>
      match table.slot key with
      | .ok slot => [.heated (some slot)]
      | .error _ => []
  | _, _ => []

namespace Event

def access? (table : Table) : Event Act Reply → Option Access
  | .read key (.ok value) => (table.slot key).toOption.map fun slot => .read slot value
  | .write key value (.ok ()) => (table.slot key).toOption.map fun slot => .write slot value
  | _ => none

def accesses (table : Table) (events : List (Event Act Reply)) : List Access :=
  events.filterMap (access? table)

def ending (accesses : List Access) : Outcome UInt64 → Outcome UInt64 → List Mark
  | .ok _, .ok _ => [.committed accesses]
  | .ok _, .fault .conflict => [.heated none]
  | _, _ => []

mutual

def history (table : Table) : Event Act Reply → List Mark
  | .read _ _ | .write _ _ _ => []
  | .act action answer => action.marks table answer
  | .ran _ none => []
  | .ran _ (some ⟨calls, _, _⟩) => historyOfCalls table calls

def historyOfCalls (table : Table) : List (Call Act Reply) → List Mark
  | [] => []
  | ⟨events, returned, ended⟩ :: rest =>
      historyOf table events ++ ending (accesses table events) returned ended ++
        historyOfCalls table rest

def historyOf (table : Table) : List (Event Act Reply) → List Mark
  | [] => []
  | event :: rest => event.history table ++ historyOf table rest

end

end Event

end LockOrder
