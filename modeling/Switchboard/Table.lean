/-!
# Tables

A finite map as a list of pairs in the order of the keys. A key is found by equality, so looking
up does not depend on the order.
-/
namespace Switchboard

abbrev Table (κ α : Type) := List (κ × α)

namespace Table

variable {κ α : Type} [DecidableEq κ]

def get? (t : Table κ α) (k : κ) : Option α :=
  match t with
  | [] => none
  | (k', a) :: rest => if k' = k then some a else get? rest k

def contains (t : Table κ α) (k : κ) : Bool := (get? t k).isSome

def set [Ord κ] (t : Table κ α) (k : κ) (a : α) : Table κ α :=
  match t with
  | [] => [(k, a)]
  | (k', a') :: rest =>
    match compare k k' with
    | .lt => (k, a) :: (k', a') :: rest
    | .eq => (k, a) :: rest
    | .gt => (k', a') :: set rest k a

def erase (t : Table κ α) (k : κ) : Table κ α := t.filter (·.1 ≠ k)

def keys (t : Table κ α) : List κ := t.map (·.1)

@[simp] theorem get?_nil (k : κ) : get? ([] : Table κ α) k = none := rfl

theorem get?_cons (k k' : κ) (a : α) (t : Table κ α) :
    get? ((k', a) :: t) k = if k' = k then some a else get? t k := rfl

theorem get?_set [Ord κ] [Std.LawfulEqOrd κ] (t : Table κ α) (k k' : κ) (a : α) :
    get? (set t k a) k' = if k = k' then some a else get? t k' := by
  induction t with
  | nil => rfl
  | cons entry rest ih =>
    rcases entry with ⟨k₀, a₀⟩
    simp only [set]
    split
    · rfl
    · next h =>
      have hk : k = k₀ := Std.compare_eq_iff_eq.mp h
      subst hk
      by_cases he : k = k' <;> simp [get?_cons, he]
    · next h =>
      rw [get?_cons, get?_cons, ih]
      by_cases he : k = k'
      · have hne : k₀ ≠ k' := by
          intro h₀
          rw [he, h₀, Std.compare_self] at h
          cases h
        simp [he, hne]
      · simp [he]

theorem get?_set_self [Ord κ] [Std.LawfulEqOrd κ] (t : Table κ α) (k : κ) (a : α) :
    get? (set t k a) k = some a := by
  rw [get?_set, if_pos rfl]

theorem get?_set_of_ne [Ord κ] [Std.LawfulEqOrd κ] (t : Table κ α) {k k' : κ} (a : α)
    (h : k ≠ k') : get? (set t k a) k' = get? t k' := by
  rw [get?_set, if_neg h]

theorem get?_erase (t : Table κ α) (k k' : κ) :
    get? (erase t k) k' = if k = k' then none else get? t k' := by
  induction t with
  | nil => simp [erase]
  | cons entry rest ih =>
    rcases entry with ⟨k₀, a₀⟩
    by_cases h₀ : k₀ = k
    · subst h₀
      have he : erase ((k₀, a₀) :: rest) k₀ = erase rest k₀ := by simp [erase]
      rw [he, ih, get?_cons]
      by_cases h : k₀ = k' <;> simp [h]
    · have he : erase ((k₀, a₀) :: rest) k = (k₀, a₀) :: erase rest k := by simp [erase, h₀]
      rw [he, get?_cons, get?_cons, ih]
      by_cases h : k = k'
      · subst h
        simp [h₀]
      · simp [h]

end Table

def insertOrdered [Ord α] (a : α) : List α → List α
  | [] => [a]
  | b :: rest =>
    match compare a b with
    | .lt => a :: b :: rest
    | .eq => a :: rest
    | .gt => b :: insertOrdered a rest

def orderedOf [Ord α] (items : List α) : List α := items.foldl (fun set a => insertOrdered a set) []

end Switchboard
