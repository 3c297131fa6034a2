import SigmaQuery.Condition.Tree

/-!
# Shared conjunctions

The conjunction of a log source's conditions stands in every tree that the log source constrains, and
it is one and the same in all of them. An item that is taken out of it in one place is gone from all
places. A *loss* tells of such an item, and a tree is brought up to date by the losses since it was
made. A conjunction has no two items that are the same, so a loss that a tree has seen before changes
nothing.
-/

namespace SigmaQuery

/-- An item that the conjunction of a log source has lost. -/
structure Loss where
  source : Nat
  item : Cond
deriving Repr, Inhabited

namespace Cond

/-- The list without the first item that is the same as the node. -/
def eraseSame? (c : Cond) : List Cond → Option (List Cond)
  | [] => none
  | x :: xs => if c.same x then some xs else (eraseSame? c xs).map (x :: ·)

/-- The items that the conjunction of a log source has after losses. -/
def remaining (source : Nat) : List Loss → List Cond → List Cond
  | [], items => items
  | l :: ls, items =>
    remaining source ls
      (if l.source = source then (eraseSame? l.item items).getD items else items)

mutual

def lose (ls : List Loss) : Cond → Cond
  | .all (some source) items => .all (some source) (remaining source ls (loseAll ls items))
  | .all none items => .all none (loseAll ls items)
  | .any items => .any (loseAll ls items)
  | .not items => .not (loseAll ls items)
  | .isNull items => .isNull (loseAll ls items)
  | .notNull items => .notNull (loseAll ls items)
  | .group inner => .group (lose ls inner)
  | .seq items => .seq (loseAll ls items)
  | .absent => .absent
  | .item f v => .item f v
  | .value v => .value v
  | .token t => .token t

def loseAll (ls : List Loss) : List Cond → List Cond
  | [] => []
  | c :: rest => lose ls c :: loseAll ls rest

end

def after (ls : List Loss) (c : Cond) : Cond :=
  match ls with
  | [] => c
  | _ :: _ => c.lose ls

theorem after_nil (c : Cond) : c.after [] = c := rfl

end Cond

end SigmaQuery
