import BattleTree.Geometry.Scalar

/-!
This module contains the intersection test of closed segments in the plane and the test of a segment
against a unit cell.
-/

namespace BattleTree

structure Point (α : Type) where
  x : α
  y : α
  deriving DecidableEq, Repr

namespace Point

variable {α : Type} [Scalar α]

def cross (o a b : Point α) : α :=
  (a.x - o.x) * (b.y - o.y) - (a.y - o.y) * (b.x - o.x)

def within (a b p : Point α) : Bool :=
  Scalar.le (Scalar.min a.x b.x) p.x && Scalar.le p.x (Scalar.max a.x b.x) &&
    (Scalar.le (Scalar.min a.y b.y) p.y && Scalar.le p.y (Scalar.max a.y b.y))

end Point

structure Segment (α : Type) where
  start : Point α
  finish : Point α
  deriving DecidableEq, Repr

namespace Segment

variable {α : Type} [Scalar α]

/--
Whether two closed segments meet, by signed areas: each segment has its ends on different sides of
the line through the other one, or on that line. If both ends of the second segment are on the line
of the first one, they meet when an end of one lies on the other.
-/
def intersects (p q : Segment α) : Bool :=
  let d₁ := Point.cross p.start p.finish q.start
  let d₂ := Point.cross p.start p.finish q.finish
  let d₃ := Point.cross q.start q.finish p.start
  let d₄ := Point.cross q.start q.finish p.finish
  if Scalar.eq d₁ Scalar.zero && Scalar.eq d₂ Scalar.zero then
    Point.within p.start p.finish q.start || Point.within p.start p.finish q.finish ||
      Point.within q.start q.finish p.start || Point.within q.start q.finish p.finish
  else
    Scalar.le (d₁ * d₂) Scalar.zero && Scalar.le (d₃ * d₄) Scalar.zero

end Segment

structure Cell where
  x : Int
  y : Int
  deriving DecidableEq, Repr

namespace Cell

variable {α : Type} [Scalar α]

def contains (c : Cell) (p : Point α) : Bool :=
  let x₀ : α := Scalar.ofInt c.x
  let y₀ : α := Scalar.ofInt c.y
  let x₁ := x₀ + Scalar.ofInt 1
  let y₁ := y₀ + Scalar.ofInt 1
  Scalar.le x₀ p.x && Scalar.lt p.x x₁ && Scalar.le y₀ p.y && Scalar.lt p.y y₁

def edges (c : Cell) : List (Segment α) :=
  let x₀ : α := Scalar.ofInt c.x
  let y₀ : α := Scalar.ofInt c.y
  let x₁ := x₀ + Scalar.ofInt 1
  let y₁ := y₀ + Scalar.ofInt 1
  [⟨⟨x₀, y₀⟩, ⟨x₁, y₀⟩⟩, ⟨⟨x₁, y₀⟩, ⟨x₁, y₁⟩⟩, ⟨⟨x₁, y₁⟩, ⟨x₀, y₁⟩⟩, ⟨⟨x₀, y₁⟩, ⟨x₀, y₀⟩⟩]

def touches (c : Cell) (s : Segment α) : Bool :=
  c.contains s.start || c.contains s.finish || c.edges.any s.intersects

end Cell

end BattleTree
