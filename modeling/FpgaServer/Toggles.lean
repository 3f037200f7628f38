import Mathlib.Data.List.Basic
import Mathlib.Data.Option.Basic
import Mathlib.Logic.Basic
/-!
# Toggles — a slot that is filled and emptied in turn

`Toggles x l y`: a slot that holds `x` takes the contents `l` one after the other, full after empty and empty after full, and
holds `y` in the end.  Histories compose, the last entry is what the slot holds, and a slot that is not emptied keeps what
it holds.
-/
namespace Base

variable {α : Type}

def Toggles : Option α → List (Option α) → Option α → Prop
  | x, [], y => x = y
  | x, z :: l, y => z.isSome ≠ x.isSome ∧ Toggles z l y

namespace Toggles

theorem append : ∀ {l m : List (Option α)} {x y z : Option α}, Toggles x l y → Toggles y m z → Toggles x (l ++ m) z
  | [], _, _, _, _, h, h' => by
    cases h
    exact h'
  | _ :: _, _, _, _, _, h, h' => ⟨h.1, append h.2 h'⟩

/-- What is taken last is what is held. -/
theorem last : ∀ {l : List (Option α)} {x y : Option α}, Toggles x l y → l.getLast?.getD x = y
  | [], _, _, h => h
  | z :: l, x, y, h => by
    rw [List.getLast?_cons, Option.getD_some]
    exact last h.2

/-- Full and empty alternate. -/
theorem chain : ∀ {l : List (Option α)} {x y : Option α}, Toggles x l y → (x.isSome :: l.map Option.isSome).IsChain (· ≠ ·)
  | [], _, _, _ => .singleton _
  | _ :: _, _, _, h => .cons_cons (Ne.symm h.1) (chain h.2)

/-- A full slot that is not emptied takes nothing. -/
theorem kept {l : List (Option α)} {a : α} {y : Option α} (h : Toggles (some a) l y) (hl : none ∉ l) : y = some a := by
  cases l with
  | nil => exact h.symm
  | cons z l =>
    cases z with
    | none => exact absurd List.mem_cons_self hl
    | some b => exact absurd rfl h.1

end Toggles
end Base
