/-! # Answers that may be errors

What is known of steps that have all succeeded, one by one and over a list.
-/

namespace SpillSort

variable {α β γ ε : Type}

theorem exists_of_map_eq_ok {f : α → β} {answer : Except ε α} {b : β} (mapped : answer.map f = .ok b) :
    ∃ a, answer = .ok a ∧ f a = b := by
  cases answer with
  | error error => cases mapped
  | ok a => exact ⟨a, rfl, Except.ok.inj mapped⟩

theorem exists_of_bind_eq_ok {rest : α → Except ε β} {answer : Except ε α} {b : β} (bound : answer.bind rest = .ok b) :
    ∃ a, answer = .ok a ∧ rest a = .ok b := by
  cases answer with
  | error error => cases bound
  | ok a => exact ⟨a, rfl, bound⟩

/-- What is seen of an answer is seen only if there is one. -/
theorem exists_of_map_eq_some {observe : α → β} {answered : Except ε α × γ} {seen : β}
    (found : answered.1.toOption.map observe = some seen) : ∃ a later, answered = (.ok a, later) ∧ observe a = seen := by
  obtain ⟨_ | a, later⟩ := answered
  · cases found
  · exact ⟨a, later, rfl, Option.some.inj found⟩

theorem eq_ok_of_mapError_eq_ok {ε' : Type} {f : ε → ε'} {answer : Except ε α} {a : α}
    (kept : answer.mapError f = .ok a) : answer = .ok a := by
  cases answer with
  | error error => cases kept
  | ok a' => exact congrArg Except.ok (Except.ok.inj kept)

/-- A list can be mapped if its first member and the others can. -/
theorem exists_of_mapM_cons_eq_ok {f : α → Except ε β} {a : α} {list : List α} {images : List β}
    (mapped : (a :: list).mapM f = .ok images) :
    ∃ b images', f a = .ok b ∧ list.mapM f = .ok images' ∧ images = b :: images' := by
  rw [List.mapM_cons] at mapped
  cases first : f a with
  | error error =>
    rw [first] at mapped
    cases mapped
  | ok b =>
    cases rest : list.mapM f with
    | error error =>
      rw [first, rest] at mapped
      cases mapped
    | ok images' =>
      rw [first, rest] at mapped
      exact ⟨b, images', rfl, rfl, (Except.ok.inj mapped).symm⟩

/-- What a list is mapped to comes from its members. -/
theorem mem_of_mapM_eq_ok {f : α → Except ε β} {list : List α} {images : List β} (mapped : list.mapM f = .ok images)
    {image : β} (present : image ∈ images) : ∃ a ∈ list, f a = .ok image := by
  induction list generalizing images with
  | nil =>
    cases mapped
    cases present
  | cons a list ih =>
    obtain ⟨image', images', first, rest, rfl⟩ := exists_of_mapM_cons_eq_ok mapped
    rcases List.mem_cons.mp present with rfl | later
    · exact ⟨a, List.mem_cons_self, first⟩
    · obtain ⟨b, among, bound⟩ := ih rest later
      exact ⟨b, List.mem_cons_of_mem _ among, bound⟩

theorem mapM_ne_nil {f : α → Except ε β} {list : List α} {images : List β} (mapped : list.mapM f = .ok images)
    (nonempty : list ≠ []) : images ≠ [] := by
  obtain ⟨a, list, rfl⟩ := List.exists_cons_of_ne_nil nonempty
  obtain ⟨image, images', -, -, rfl⟩ := exists_of_mapM_cons_eq_ok mapped
  exact List.cons_ne_nil image images'

theorem length_of_mapM_eq_ok {f : α → Except ε β} {list : List α} {images : List β} (mapped : list.mapM f = .ok images) :
    images.length = list.length := by
  induction list generalizing images with
  | nil =>
    cases mapped
    rfl
  | cons a list ih =>
    obtain ⟨image, images', -, later, rfl⟩ := exists_of_mapM_cons_eq_ok mapped
    rw [List.length_cons, ih later, List.length_cons]

/-- Texts that are read one by one are read together. -/
theorem mapM_map_eq_ok {write : α → β} {read : β → Except ε γ} {settled : α → γ} {list : List α}
    (each : ∀ a ∈ list, read (write a) = .ok (settled a)) : (list.map write).mapM read = .ok (list.map settled) := by
  induction list with
  | nil => rfl
  | cons a list ih =>
    rw [List.map_cons, List.mapM_cons, each a List.mem_cons_self,
      ih fun b present => each b (List.mem_cons_of_mem a present)]
    rfl

/-- What is read from texts one by one is written as these texts, if each of them is. -/
theorem map_eq_of_mapM_eq_ok {read : β → Except ε γ} {write : γ → β} {texts : List β} {list : List γ}
    (mapped : texts.mapM read = .ok list) (each : ∀ text c, read text = .ok c → write c = text) :
    list.map write = texts := by
  induction texts generalizing list with
  | nil =>
    cases mapped
    rfl
  | cons text texts ih =>
    obtain ⟨c, list', first, later, rfl⟩ := exists_of_mapM_cons_eq_ok mapped
    rw [List.map_cons, each text c first, ih later]

/-- Where all that can go wrong with a member is one fault, a list with such a member has that fault. -/
theorem mapM_eq_error {f : α → Except ε β} {list : List α} {fault : ε}
    (each : ∀ a ∈ list, (∃ b, f a = .ok b) ∨ f a = .error fault) (failing : ∃ a ∈ list, f a = .error fault) :
    list.mapM f = .error fault := by
  induction list with
  | nil =>
    obtain ⟨a, present, -⟩ := failing
    cases present
  | cons a list ih =>
    rw [List.mapM_cons]
    rcases each a List.mem_cons_self with ⟨b, first⟩ | first
    · obtain ⟨a', present, later⟩ := failing
      rcases List.mem_cons.mp present with rfl | among
      · cases first.symm.trans later
      · rw [first, ih (fun other present => each other (List.mem_cons_of_mem a present)) ⟨a', among, later⟩]
        rfl
    · rw [first]
      rfl

/-- A list cannot be mapped if there is a first member that cannot. -/
theorem mapM_eq_error_iff {f : α → Except ε β} {list : List α} {fault : ε} :
    list.mapM f = .error fault ↔
      ∃ before a after, list = before ++ a :: after ∧ (∀ earlier ∈ before, ∃ b, f earlier = .ok b) ∧ f a = .error fault := by
  constructor
  · intro failed
    induction list with
    | nil => cases failed
    | cons a list ih =>
      rw [List.mapM_cons] at failed
      cases first : f a with
      | error error =>
        rw [first] at failed
        cases failed
        exact ⟨[], a, list, rfl, List.forall_mem_nil _, first⟩
      | ok b =>
        cases rest : list.mapM f with
        | error error =>
          rw [first, rest] at failed
          cases failed
          obtain ⟨before, a', after, rfl, calm, found⟩ := ih rest
          exact ⟨a :: before, a', after, rfl, List.forall_mem_cons.mpr ⟨⟨b, first⟩, calm⟩, found⟩
        | ok images =>
          rw [first, rest] at failed
          cases failed
  · rintro ⟨before, a, after, rfl, calm, found⟩
    induction before with
    | nil =>
      rw [List.nil_append, List.mapM_cons, found]
      rfl
    | cons first before ih =>
      obtain ⟨⟨b, mapped⟩, calm'⟩ := List.forall_mem_cons.mp calm
      rw [List.cons_append, List.mapM_cons, mapped, ih calm']
      rfl

/-! ## Up to the first error -/

/-- The values before the first error. -/
def goods : List (Except ε α) → List α
  | .ok value :: answers => value :: goods answers
  | _ => []

/-- The first error. -/
def firstError? : List (Except ε α) → Option ε
  | [] => none
  | .ok _ :: answers => firstError? answers
  | .error error :: _ => some error

/-- Without an error all are values. -/
theorem eq_map_goods {answers : List (Except ε α)} (calm : firstError? answers = none) :
    answers = (goods answers).map .ok := by
  induction answers with
  | nil => rfl
  | cons answer answers ih =>
    cases answer with
    | error error => cases calm
    | ok value => rw [goods, List.map_cons, ← ih calm]

end SpillSort
