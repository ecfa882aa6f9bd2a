import Mathlib.Logic.Relation

/-!
# Names that are available

The points of a flow graph are joined by edges, and a step from a point may define names.  A name is available at a
point when every path from the start to it defines the name; a path that avoids the name refutes that.  Where a
name is available wherever another one is defined, it is not defined anew without the other one being lost.
-/

namespace Availability

open Relation

/-- A flow graph with the names that the step from each point defines. -/
@[ext] structure FlowGraph (P N : Type) where
  start : P
  edge : P → P → Prop
  defines : P → N → Prop

namespace FlowGraph

variable {P Q N : Type} (G : FlowGraph P N) {H : FlowGraph Q N} {R : P → P → Prop} {p q r : P} {x y : N}

/-- There is a path to the point. -/
def Reaches (q : P) : Prop := ReflTransGen G.edge G.start q

/-- There is a path to the point that does not define the name. -/
def Avoids (x : N) (q : P) : Prop := ReflTransGen (fun p q => G.edge p q ∧ ¬ G.defines p x) G.start q

/-- Every path to the point defines the name. -/
def Available (x : N) (q : P) : Prop := ¬ G.Avoids x q

/-- The name is available, or it is defined nowhere. -/
def Ready (x : N) (q : P) : Prop := (∃ p, G.defines p x) → G.Available x q

/-- A name is defined in one place at most. -/
def DefinesOnce : Prop := ∀ p q x, G.defines p x → G.defines q x → p = q

variable {G}

/-- A path avoids a name, or it gets to a definition of the name while it still avoids it. -/
theorem avoids_or_defines (hR : ∀ p q, R p q → G.edge p q) (h : ReflTransGen R G.start q) :
    G.Avoids x q ∨ ∃ p, G.defines p x ∧ G.Avoids x p ∧ ReflTransGen R G.start p := by
  induction h with
  | refl => exact .inl ReflTransGen.refl
  | @tail p q hpath hstep ih =>
    rcases ih with hp | hdefined
    · by_cases hdef : G.defines p x
      · exact .inr ⟨p, hdef, hp, hpath⟩
      · exact .inl (hp.tail ⟨hR p q hstep, hdef⟩)
    · exact .inr hdefined

theorem Reaches.avoids_or_defines (h : G.Reaches q) : G.Avoids x q ∨ ∃ p, G.defines p x ∧ G.Avoids x p := by
  rcases FlowGraph.avoids_or_defines (x := x) (fun _ _ hedge => hedge) h with hq | ⟨p, hdef, hp, -⟩
  · exact .inl hq
  · exact .inr ⟨p, hdef, hp⟩

theorem Avoids.avoids_or_defines (h : G.Avoids y q) :
    G.Avoids x q ∨ ∃ p, G.defines p x ∧ G.Avoids x p ∧ G.Avoids y p :=
  FlowGraph.avoids_or_defines (fun _ _ hstep => hstep.1) h

theorem not_available_start : ¬ G.Available x G.start := fun h => h ReflTransGen.refl

/-- A name that is available after a step was so before, or the step defines it. -/
theorem Available.before (h : G.Available x r) (hedge : G.edge q r) : G.Available x q ∨ G.defines q x := by
  by_cases hdef : G.defines q x
  · exact .inr hdef
  · exact .inl fun hq => h (hq.tail ⟨hedge, hdef⟩)

/-- Where a name is available, so is every name that is available wherever it is defined. -/
theorem Available.of_definitions (h : G.Available y q) (hdefs : ∀ p, G.defines p y → G.Available x p) :
    G.Available x q := by
  intro hq
  rcases hq.avoids_or_defines (x := y) with hy | ⟨p, hdef, -, hp⟩
  · exact h hy
  · exact hdefs p hdef hp

/-- A name is not available where it is defined, unless control does not get there. -/
theorem not_available_of_defines (hone : G.DefinesOnce) (hreach : G.Reaches p) (hdef : G.defines p x) :
    ¬ G.Available x p := by
  intro havail
  rcases hreach.avoids_or_defines (x := x) with hp | ⟨q, hq, hpath⟩
  · exact havail hp
  · exact havail (hone q p x hq hdef ▸ hpath)

/-- While a name stays available, the names that are available wherever it is defined are not defined anew. -/
theorem not_defines_of_available (hone : G.DefinesOnce) (hreach : G.Reaches q) (hedge : G.edge q r)
    (hy : G.Available y r) (hkeeps : ¬ G.defines q y) (hdefs : ∀ p, G.defines p y → G.Available x p) :
    ¬ G.defines q x := by
  intro hx
  have hq : G.Avoids y q := by
    rcases hreach.avoids_or_defines (x := y) with hq | ⟨p, hdef, hp⟩
    · exact hq
    · rcases hp.avoids_or_defines (x := x) with hxp | ⟨q', hq', -, hpath⟩
      · exact absurd hxp (hdefs p hdef)
      · exact hone q' q x hq' hx ▸ hpath
  exact hy (hq.tail ⟨hedge, hkeeps⟩)

/-- A map of points under which paths that avoid the name stay such paths. -/
theorem Avoids.map {f : P → Q} (h : G.Avoids x q) (hstart : H.Avoids x (f G.start))
    (hstep : ∀ p q, G.edge p q → ¬ G.defines p x → H.Avoids x (f p) → H.Avoids x (f q)) :
    H.Avoids x (f q) := by
  induction h with
  | refl => exact hstart
  | tail _ hpq ih => exact hstep _ _ hpq.1 hpq.2 ih

end FlowGraph

end Availability
