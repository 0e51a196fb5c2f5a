/-!
# Scores and sums

The arithmetic by which what is found in a file or a project is put together.
-/

namespace CodeQuality

/-!
## Scores

A score says how bad something is, from zero for ideal to one. Scores are doubles, and whatever
arithmetic yields is brought into that range: what is not a number becomes zero. The arithmetic is
written down for numbers of any kind.
-/

section Arithmetic

variable {α : Type} [OfNat α 0] [LT α] [DecidableLT α]

/-- The number from zero to one that is nearest to a value. -/
def clampUnit [OfNat α 1] (value : α) : α :=
  if value < 0 then 0
  else if 1 < value then 1
  else value

/-- The mean of values by their weights, zero when the weights do not add up to more than that. -/
def weightedMean [Add α] [Mul α] [Div α] (entries : List (α × α)) : α :=
  let (weighted, weights) := entries.foldl (fun (weighted, weights) (value, weight) =>
    (weighted + value * weight, weights + weight)) (0, 0)
  if 0 < weights then weighted / weights else 0

end Arithmetic

/-- The score nearest to a value, and zero for what is not a number. -/
def clampScore (value : Float) : Float :=
  if value.isNaN then 0 else clampUnit value

/-- The lesser of two values, or the only one that is a number. -/
def lesser (a b : Float) : Float :=
  if a.isNaN then b
  else if b.isNaN then a
  else if b < a then b
  else a

/-- The greater of two values, or the only one that is a number. -/
def greater (a b : Float) : Float :=
  if a.isNaN then b
  else if b.isNaN then a
  else if a < b then b
  else a

/-- The sum of values and their number. -/
def total (values : List Float) : Float × Nat :=
  values.foldl (fun (sum, count) value => (sum + value, count + 1)) (0, 0)

/-- The mean of values, if there are any. -/
def mean? (values : List Float) : Option Float :=
  match total values with
  | (_, 0) => none
  | (sum, count) => some (sum / Float.ofNat count)

/-- How serious an issue is. -/
inductive Severity where
  | info
  | warning
  | critical
  deriving DecidableEq, Repr

namespace Severity

/-- The least score of a critical issue. -/
def criticalScore : Float := 0.8

/-- The least score of a warning. -/
def warningScore : Float := 0.5

/-- The severity of the issues of a metric by its score. -/
def ofScore (score : Float) : Severity :=
  if criticalScore ≤ score then critical
  else if warningScore ≤ score then warning
  else info

/-- The word that reports write. -/
def key : Severity → String
  | info => "info"
  | warning => "warning"
  | critical => "critical"

/-- The severity that reports write as the given word. -/
def ofKey? (text : String) : Option Severity :=
  [info, warning, critical].find? fun severity => severity.key == text

/-- The place of a severity, the most serious last. -/
def rank : Severity → Nat
  | info => 0
  | warning => 1
  | critical => 2

end Severity

/-!
## Sums

The sum of a measure over the items of a list. The sum over two lists one behind the other is the
sum of their sums.
-/

/-- The sum of a measure over the items of a list. -/
def sumOf {α : Type} (measure : α → Nat) (items : List α) : Nat :=
  items.foldr (fun item sum => measure item + sum) 0

variable {α : Type} (measure : α → Nat)

@[simp] theorem sumOf_nil : sumOf measure [] = 0 := rfl

@[simp] theorem sumOf_cons (item : α) (items : List α) :
    sumOf measure (item :: items) = measure item + sumOf measure items := rfl

@[simp] theorem sumOf_append (first second : List α) :
    sumOf measure (first ++ second) = sumOf measure first + sumOf measure second := by
  induction first with
  | nil => rw [List.nil_append, sumOf_nil, Nat.zero_add]
  | cons item items ih => rw [List.cons_append, sumOf_cons, sumOf_cons, ih, Nat.add_assoc]

end CodeQuality
