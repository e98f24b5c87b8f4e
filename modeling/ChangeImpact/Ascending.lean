/-!
# Ascending lists

Lists of distinct elements in ascending order, as finite sets whose order a reader sees, and stable
sorting by an order or a key. Strings are ordered by their code points, which is also the order of
their UTF-8 bytes.
-/

namespace ChangeImpact.Ascending

section

variable [LT α] [DecidableLT α] [DecidableEq α]

/-- Puts an element in its place, once. -/
def insert (x : α) : List α → List α
  | [] => [x]
  | y :: rest => if x < y then x :: y :: rest else if x = y then y :: rest else y :: insert x rest

/-- The distinct elements of a list in ascending order. -/
def ofList (xs : List α) : List α :=
  xs.foldr insert []

theorem mem_insert {x y : α} {xs : List α} : y ∈ insert x xs ↔ y = x ∨ y ∈ xs := by
  induction xs with
  | nil => simp [insert]
  | cons z rest ih =>
    unfold insert
    split
    · simp
    · split
      · next same => subst same; simp
      · simp [ih]; grind

theorem mem_ofList {y : α} {xs : List α} : y ∈ ofList xs ↔ y ∈ xs := by
  induction xs with
  | nil => simp [ofList]
  | cons x rest ih => simp [ofList, mem_insert] at ih ⊢; simp [ih]

end

def insertBy (le : α → α → Bool) (x : α) : List α → List α
  | [] => [x]
  | y :: rest => if le x y then x :: y :: rest else y :: insertBy le x rest

/-- A stable sort by an order. -/
def sortBy (le : α → α → Bool) (xs : List α) : List α :=
  xs.foldr (insertBy le) []

def sortByKey (key : α → Nat) (xs : List α) : List α :=
  sortBy (fun x y => key x ≤ key y) xs

/-- The strings of a list, repetitions kept, by their code points. -/
def sortStrings (strings : List String) : List String :=
  sortBy (fun s t => s ≤ t) strings

theorem perm_insertBy (le : α → α → Bool) (x : α) (xs : List α) :
    (insertBy le x xs).Perm (x :: xs) := by
  induction xs with
  | nil => exact .refl _
  | cons y rest ih =>
    unfold insertBy
    split
    · exact .refl _
    · exact (ih.cons y).trans (.swap x y rest)

theorem perm_sortBy (le : α → α → Bool) (xs : List α) : (sortBy le xs).Perm xs := by
  induction xs with
  | nil => exact .refl _
  | cons x rest ih => exact (perm_insertBy le x _).trans (ih.cons x)

end ChangeImpact.Ascending
