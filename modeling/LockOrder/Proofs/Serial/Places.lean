import LockOrder.Proofs.Table.Values

set_option autoImplicit false

namespace LockOrder

-- The transaction relies on what is there, since it has not written the record before.
def Access.Asks (slot : Nat) (accesses : List Access) : Prop :=
  ∃ before value after, accesses = before ++ .read slot value :: after ∧ latest slot before = none

theorem Access.latest_only_write (slot other : Nat) (value : UInt64) :
    latest other [.write slot value] = if slot = other then some value else none :=
  @latest_write [] other slot value

theorem Access.only_write_writes {slot other : Nat} {value written : UInt64}
    (writes : latest other [.write slot value] = some written) : slot = other := by
  rw [latest_only_write] at writes
  exact (Option.ite_none_right_eq_some.mp writes).1

theorem Access.only_write_misses {slot other : Nat} (value : UInt64) (apart : other ≠ slot) :
    latest other [.write slot value] = none :=
  (latest_only_write slot other value).trans (if_neg apart.symm)

namespace Contents

def overwritten (slot : Nat) (content : UInt64 × UInt64) (accesses : List Access) : UInt64 × UInt64 :=
  match Access.latest slot accesses with
  | some value => (content.1 + 1, value)
  | none => content

-- So many transactions write the record.
def writers (slot : Nat) (history : List (List Access)) : Nat :=
  history.countP fun accesses => (Access.latest slot accesses).isSome

variable {contents other : Contents} {history : List (List Access)} {accesses : List Access}
  {slot place : Nat}

theorem get_commit (contents : Contents) (accesses : List Access) (slot : Nat) :
    (contents.commit accesses)[slot]? = contents[slot]?.map (overwritten slot · accesses) := by
  rw [commit, List.getElem?_mapIdx]
  rfl

theorem get_replay (contents : Contents) (history : List (List Access)) (slot : Nat) :
    (contents.replay history)[slot]? = contents[slot]?.map (history.foldl (overwritten slot)) := by
  induction history generalizing contents with
  | nil => simp [replay]
  | cons accesses rest ih =>
      rw [replay, ih, get_commit, Option.map_map]
      rfl

theorem overwritten_of_none (none : Access.latest slot accesses = none) (content : UInt64 × UInt64) :
    overwritten slot content accesses = content := by
  rw [overwritten, none]

theorem foldl_unwritten (unwritten : ∀ accesses ∈ history, Access.latest slot accesses = none)
    (content : UInt64 × UInt64) : history.foldl (overwritten slot) content = content := by
  induction history with
  | nil => rfl
  | cons accesses rest ih =>
      rw [List.foldl_cons, overwritten_of_none (unwritten accesses (List.mem_cons_self ..))]
      exact ih fun other listed => unwritten other (List.mem_cons_of_mem _ listed)

-- A place is one of an attempt that has accessed nothing yet, or never will.
theorem split_at_place (vacant : history[place]? = some []) :
    history = history.take place ++ [] :: history.drop (place + 1) := by
  obtain ⟨inside, here⟩ := List.getElem?_eq_some_iff.mp vacant
  rw [← here, List.getElem_cons_drop, List.take_append_drop]

theorem set_at_place (vacant : history[place]? = some []) (accesses : List Access) :
    history.set place accesses = history.take place ++ accesses :: history.drop (place + 1) :=
  List.set_eq_take_append_cons_drop.trans (if_pos (List.getElem?_eq_some_iff.mp vacant).1)

theorem foldl_vacant (vacant : history[place]? = some []) (content : UInt64 × UInt64) :
    history.foldl (overwritten slot) content =
      (history.drop (place + 1)).foldl (overwritten slot)
        ((history.take place).foldl (overwritten slot) content) := by
  calc history.foldl (overwritten slot) content
      = (history.take place ++ [] :: history.drop (place + 1)).foldl (overwritten slot) content := by
        rw [← split_at_place vacant]
    _ = _ := by
        rw [List.foldl_append, List.foldl_cons]
        rfl

theorem foldl_set (vacant : history[place]? = some []) (accesses : List Access)
    (content : UInt64 × UInt64) :
    (history.set place accesses).foldl (overwritten slot) content =
      (history.drop (place + 1)).foldl (overwritten slot)
        (overwritten slot ((history.take place).foldl (overwritten slot) content) accesses) := by
  rw [set_at_place vacant, List.foldl_append, List.foldl_cons]

theorem replay_set_unwritten (vacant : history[place]? = some [])
    (none : Access.latest slot accesses = none) :
    (contents.replay (history.set place accesses))[slot]? = (contents.replay history)[slot]? := by
  rw [get_replay, get_replay]
  congr 1
  funext content
  rw [foldl_set vacant, overwritten_of_none none, foldl_vacant vacant]

-- The last transaction that writes the record leaves its value.
theorem replay_set_last {value : UInt64} (vacant : history[place]? = some [])
    (some : Access.latest slot accesses = some value)
    (later : ∀ after accesses, place < after → history[after]? = .some accesses →
      Access.latest slot accesses = none) :
    (contents.replay (history.set place accesses))[slot]? =
      (contents.replay history)[slot]?.map fun content => (content.1 + 1, value) := by
  rw [get_replay, get_replay, Option.map_map]
  congr 1
  funext content
  have unwritten : ∀ accesses ∈ history.drop (place + 1), Access.latest slot accesses = none := by
    intro accesses listed
    obtain ⟨index, here⟩ := List.mem_iff_getElem?.mp listed
    rw [List.getElem?_drop] at here
    exact later _ accesses (by omega) here
  rw [foldl_set vacant, foldl_unwritten unwritten, Function.comp_apply, foldl_vacant vacant,
    foldl_unwritten unwritten, overwritten, some]

-- What comes before is all that counts for the record.
theorem replay_take (later : ∀ after accesses, place ≤ after → history[after]? = some accesses →
    Access.latest slot accesses = none) :
    (contents.replay (history.take place))[slot]? = (contents.replay history)[slot]? := by
  rw [get_replay, get_replay]
  congr 1
  funext content
  have unwritten : ∀ accesses ∈ history.drop place, Access.latest slot accesses = none := by
    intro accesses listed
    obtain ⟨index, here⟩ := List.mem_iff_getElem?.mp listed
    rw [List.getElem?_drop] at here
    exact later _ accesses (Nat.le_add_right ..) here
  calc (history.take place).foldl (overwritten slot) content
      = (history.drop place).foldl (overwritten slot)
          ((history.take place).foldl (overwritten slot) content) :=
        (foldl_unwritten unwritten _).symm
    _ = (history.take place ++ history.drop place).foldl (overwritten slot) content :=
        List.foldl_append.symm
    _ = history.foldl (overwritten slot) content := by rw [List.take_append_drop]

theorem replay_snoc (contents : Contents) (history : List (List Access)) (accesses : List Access)
    (slot : Nat) : (contents.replay (history ++ [accesses]))[slot]? =
      (contents.replay history)[slot]?.map (overwritten slot · accesses) := by
  rw [replay_append]
  exact get_commit _ accesses slot

theorem replay_snoc_unwritten (none : Access.latest slot accesses = none) :
    (contents.replay (history ++ [accesses]))[slot]? = (contents.replay history)[slot]? := by
  rw [replay_snoc, funext (overwritten_of_none none), Option.map_id']

theorem get_commit_write (contents : Contents) (slot other : Nat) (value : UInt64) :
    (contents.commit [.write slot value])[other]? =
      if other = slot then contents[other]?.map fun content => (content.1 + 1, value)
      else contents[other]? := by
  rw [get_commit]
  by_cases here : other = slot
  · subst here
    simp [overwritten, Access.latest_only_write]
  · rw [if_neg here, funext (overwritten_of_none (Access.only_write_misses value here)), Option.map_id']

-- One record is replaced, and there is a version left for it.
theorem Small.replaced (small : contents.Small)
    (elsewhere : ∀ index, index ≠ slot → other[index]? = contents[index]?)
    (here : ∀ content, other[slot]? = some content → content.1 < Record.beingWritten) : other.Small := by
  intro content listed
  obtain ⟨index, there⟩ := List.mem_iff_getElem?.mp listed
  by_cases own : index = slot
  · exact here content (own ▸ there)
  · exact small content (List.mem_of_getElem? ((elsewhere index own).symm.trans there))

theorem Explains.congr (explains : contents.Explains accesses)
    (same : ∀ slot, Access.Asks slot accesses → contents[slot]? = other[slot]?) :
    other.Explains accesses := by
  intro before slot value after split
  rcases explains before slot value after split with own | ⟨none, version, here⟩
  · exact Or.inl own
  · exact Or.inr ⟨none, version, same slot ⟨before, value, after, split, none⟩ ▸ here⟩

theorem explains_nothing (contents : Contents) : contents.Explains [] := by
  intro before slot value after split
  cases List.append_ne_nil_of_right_ne_nil before (List.cons_ne_nil _ _) split.symm

theorem serial_of_places (history : List (List Access)) (contents : Contents)
    (explained : ∀ place accesses, history[place]? = some accesses →
      (contents.replay (history.take place)).Explains accesses) : contents.Serial history := by
  induction history generalizing contents with
  | nil => trivial
  | cons accesses rest ih =>
      refine ⟨explained 0 accesses rfl, ih _ fun place other here => ?_⟩
      have behind := explained (place + 1) other here
      rwa [List.take_succ_cons, replay] at behind

theorem explained_snoc (explained : ∀ place accesses, history[place]? = some accesses →
      (contents.replay (history.take place)).Explains accesses)
    (explains : (contents.replay history).Explains accesses) (place : Nat) (made : List Access)
    (here : (history ++ [accesses])[place]? = some made) :
    (contents.replay ((history ++ [accesses]).take place)).Explains made := by
  by_cases inside : place < history.length
  · rw [List.getElem?_append_left inside] at here
    rw [List.take_append_of_le_length (Nat.le_of_lt inside)]
    exact explained place made here
  · have last : place = history.length := by
      have bound := (List.getElem?_eq_some_iff.mp here).1
      rw [List.length_append, List.length_singleton] at bound
      omega
    subst last
    rw [List.getElem?_concat_length] at here
    cases here
    rw [List.take_left]
    exact explains

theorem replay_take_set {bound : Nat} (vacant : history[place]? = some [])
    (none : place < bound → Access.latest slot accesses = none) :
    (contents.replay ((history.set place accesses).take bound))[slot]? =
      (contents.replay (history.take bound))[slot]? := by
  by_cases early : place < bound
  · rw [List.take_set]
    exact replay_set_unwritten ((List.getElem?_take_of_lt early).trans vacant) (none early)
  · rw [List.take_set_of_le (Nat.not_lt.mp early)]

-- Who fills a place answers to those behind it.
theorem explained_set (explained : ∀ place accesses, history[place]? = some accesses →
      (contents.replay (history.take place)).Explains accesses)
    (vacant : history[place]? = some [])
    (explains : (contents.replay (history.take place)).Explains accesses)
    (behind : ∀ later others, place < later → history[later]? = some others →
      ∀ slot, Access.Asks slot others → Access.latest slot accesses = none)
    (bound : Nat) (made : List Access) (here : (history.set place accesses)[bound]? = some made) :
    (contents.replay ((history.set place accesses).take bound)).Explains made := by
  by_cases own : place = bound
  · subst own
    rw [List.getElem?_set_self (List.getElem?_eq_some_iff.mp vacant).1] at here
    cases here
    rw [List.take_set_of_le (Nat.le_refl _)]
    exact explains
  · rw [List.getElem?_set_ne own] at here
    refine (explained bound made here).congr fun slot asks => (replay_take_set vacant fun early => ?_).symm
    exact behind bound made early here slot asks

-- Versions have room for all that the history installs.
def Room (contents : Contents) (history : List (List Access)) : Prop :=
  ∀ slot content, contents[slot]? = some content →
    content.1.toNat + writers slot history < Record.beingWritten.toNat

theorem version_overwritten (content : UInt64 × UInt64)
    (low : content.1.toNat < Record.beingWritten.toNat) :
    (overwritten slot content accesses).1.toNat =
      content.1.toNat + if (Access.latest slot accesses).isSome then 1 else 0 := by
  rw [overwritten]
  cases Access.latest slot accesses with
  | none => rfl
  | some value =>
      have mark : Record.beingWritten.toNat < UInt64.size := by decide
      have size : UInt64.size = 2 ^ 64 := rfl
      simp only [UInt64.toNat_add, UInt64.toNat_one, Option.isSome_some, if_true]
      omega

theorem writers_cons (accesses : List Access) (history : List (List Access)) :
    writers slot (accesses :: history) =
      writers slot history + if (Access.latest slot accesses).isSome then 1 else 0 :=
  List.countP_cons

theorem room_of_bounded (bounded : contents.Bounded history) : contents.Room history := by
  induction history generalizing contents with
  | nil =>
      intro slot content here
      exact UInt64.lt_iff_toNat_lt.mp (bounded content (List.mem_of_getElem? here))
  | cons accesses rest ih =>
      intro slot content here
      have low := UInt64.lt_iff_toNat_lt.mp (bounded.1 content (List.mem_of_getElem? here))
      have onward := ih bounded.2 slot (overwritten slot content accesses) (by
        rw [get_commit, here, Option.map_some])
      rw [version_overwritten content low] at onward
      rw [writers_cons]
      omega

theorem version_foldl (history : List (List Access)) (content : UInt64 × UInt64)
    (room : content.1.toNat + writers slot history < Record.beingWritten.toNat) :
    (history.foldl (overwritten slot) content).1.toNat = content.1.toNat + writers slot history := by
  induction history generalizing content with
  | nil => rfl
  | cons accesses rest ih =>
      rw [writers_cons] at room ⊢
      have next : (overwritten slot content accesses).1.toNat = _ := version_overwritten content (by omega)
      rw [List.foldl_cons, ih _ (by omega), next]
      omega

theorem Room.small (room : contents.Room history) : (contents.replay history).Small := by
  intro content listed
  obtain ⟨slot, here⟩ := List.mem_iff_getElem?.mp listed
  rw [get_replay] at here
  obtain ⟨old, there, rfl⟩ := Option.map_eq_some_iff.mp here
  rw [UInt64.lt_iff_toNat_lt, version_foldl history old (room slot old there)]
  exact room slot old there

theorem Room.fewer {few : List (List Access)} (room : contents.Room history)
    (fewer : ∀ slot, writers slot few ≤ writers slot history) : contents.Room few :=
  fun slot content here =>
    Nat.lt_of_le_of_lt (Nat.add_le_add_left (fewer slot) _) (room slot content here)

theorem writers_set (vacant : history[place]? = some []) (accesses : List Access) (slot : Nat) :
    writers slot history ≤ writers slot (history.set place accesses) := by
  rw [set_at_place vacant]
  conv => lhs; rw [split_at_place vacant]
  simp only [writers, List.countP_append]
  refine Nat.add_le_add_left ?_ _
  rw [List.countP_cons_of_neg (by simp [Access.latest])]
  exact (List.sublist_cons_self ..).countP_le

theorem writers_snoc (history : List (List Access)) (accesses : List Access) (slot : Nat) :
    writers slot history ≤ writers slot (history ++ [accesses]) :=
  (List.sublist_append_left ..).countP_le

end Contents

end LockOrder
