import FluxOs.Fluxc.PoolLimits
import Mathlib.Data.List.TakeDrop
import Mathlib.Data.Nat.Find

/-!
# The outline of a document

A document has items: its sections whose headings name a kind of section, and the code blocks and the entries of
metadata outside of the sections.  The module that `flux_parser_parse` returns for a stream of tokens has a child of
the right kind for each item, in order, up to the 64 children that a node has room for.  What a child holds besides
its kind is read from a buffer that holds the token behind by then.
-/

namespace FluxOs

open Faulting FluxParser

/-! ## Items -/

/-- What an item of a document is. -/
inductive ItemKind
  | function | agent | tile | region | importing | exporting | code | entry
  deriving DecidableEq, Repr

/-- What the parser makes of an item, with the texts that it reads for it. -/
inductive Reading
  | function (name returns : List UInt8)
  | agent (name : List UInt8)
  | tile (name : List UInt8)
  | region (name : List UInt8)
  | importing (path : List UInt8)
  | exporting (symbol : List UInt8)
  | code (text lang : List UInt8)
  | entry (key value : List UInt8)
  deriving DecidableEq, Repr

def Reading.kind : Reading → ItemKind
  | .function .. => .function
  | .agent _ => .agent
  | .tile _ => .tile
  | .region _ => .region
  | .importing _ => .importing
  | .exporting _ => .exporting
  | .code .. => .code
  | .entry .. => .entry

/-- What a node with these fields holds. -/
def AstFields.reading? (f : AstFields) : Option Reading :=
  match f.type with
  | .FUNCTION => some (.function f.name f.typeName)
  | .AGENT_OP => some (.agent f.name)
  | .TILE => some (.tile f.name)
  | .REGION => some (.region f.name)
  | .IMPORT => some (.importing f.importPath)
  | .EXPORT => some (.exporting f.name)
  | .CODE_INJECTION => some (.code f.codeText f.typeName)
  | .META => some (.entry f.metaKey f.metaValue)
  | _ => none

/-- What the children of a node hold. -/
def AstNode.outline (node : AstNode) : List (Option Reading) :=
  node.children.map fun child => child.fields.reading?

namespace TokenStream

variable (s : TokenStream)

/-- What the parser reads for the section with the heading `k`: the buffer holds the token behind it. -/
def sectionReading (k : Nat) : Option Reading :=
  let behind := s.text (s.pastNewlines (k + 1))
  match sectionKind (s.text k) with
  | some .FUNCTION =>
    some (.function (printed astNameMax (parseSignature behind).name) (printed 64 (parseSignature behind).retType))
  | some .AGENT_OP => some (.agent (printed astNameMax (sectionName "agent" behind)))
  | some .TILE => some (.tile (printed astNameMax (sectionName "tile" behind)))
  | some .REGION => some (.region (printed astNameMax (sectionName "region" behind)))
  | some .IMPORT => some (.importing (printed 256 (sectionName "import" (s.text (k + 1)))))
  | some .EXPORT => some (.exporting (printed astNameMax (sectionName "export" (s.text (k + 1)))))
  | _ => none

/-- What the parser reads for the code block at token `k`. -/
def codeReading (k : Nat) : Reading :=
  .code (printed astTextMax (s.text (k + 1))) (printed 64 (cString (s.token (k + 1)).lang))

/-- What the parser reads for the entry of metadata at token `k`, where the buffer holds the token behind
the value. -/
def entryReading (k : Nat) : Reading := .entry (printed 128 (s.text (k + 2))) (printed 512 (s.text (k + 2)))

/-- What the parser reads for the item that the token `k` starts. -/
def readingAt (k : Nat) : Option Reading :=
  if s.level k = 2 then s.sectionReading k
  else if s.placeAt k = .module then
    if s.type k = .CODE_BLOCK then some (s.codeReading k)
    else if s.EntryAt k then some (s.entryReading k)
    else none
  else none

/-- What the parser reads for the items in front of the token `k`. -/
def readingsBefore : Nat → List Reading
  | 0 => []
  | k + 1 => readingsBefore k ++ (s.readingAt k).toList

theorem exists_eof : ∃ k, s.type k = .EOF := ⟨s.length, s.eof _ (Nat.le_refl _)⟩

/-- The first `TOK_EOF`. -/
def ending : Nat := Nat.find s.exists_eof

variable {s} {p q : FluxParser Nat} {k i j n fuel : Nat} {place : Place} {module : AstNode} {node : Option AstNode}

theorem readingsBefore_of_none (hle : k ≤ j) (h : ∀ i, k ≤ i → i < j → s.readingAt i = none) :
    s.readingsBefore j = s.readingsBefore k := by
  induction hle with
  | refl => rfl
  | step hle ih =>
    rw [readingsBefore, h _ hle (Nat.lt_succ_self _), Option.toList_none, List.append_nil]
    exact ih fun i hi hlt => h i hi (Nat.lt_succ_of_lt hlt)

def anyFault (_ : ParseFault) : Prop := True

/-- The parser holds token `k`. -/
def At (s : TokenStream) (p : FluxParser Nat) (k : Nat) : Prop := ∃ n, s.Asked p k n

theorem At.unique (h : s.At p k) (h' : s.At p j) : k = j := by
  obtain ⟨n, hn⟩ := h
  obtain ⟨m, hm⟩ := h'
  have heq := hn.source.symm.trans hm.source
  simp only [Option.some.injEq, Prod.mk.injEq, and_true] at heq
  omega

/-- The parser got from token `k` to the one that it holds without passing a heading or the end. -/
def Walks (s : TokenStream) (k : Nat) (p : FluxParser Nat) : Prop :=
  ∃ j, k ≤ j ∧ s.At p j ∧ ∀ i, k ≤ i → i < j → ¬ s.Ends i

namespace Walks

theorem start (h : s.At p k) : s.Walks k p := ⟨k, Nat.le_refl k, h, fun _ hle hlt => absurd hle (Nat.not_le.2 hlt)⟩

theorem alloc (h : s.Walks k p) (fields : AstFields) : s.Walks k (p.astAlloc fields).2 := by
  obtain ⟨j, hle, ⟨n, hn⟩, hbody⟩ := h
  exact ⟨j, hle, ⟨n + 1, (hn.alloc fields).asked⟩, hbody⟩

/-- The next token, behind one that ends no section. -/
theorem next (h : s.Walks k p) (hends : ¬ (p.parserCheck .EOF ∨ p.atSection)) :
    Ensures anyFault (s.Walks k) p.parserNext := by
  obtain ⟨j, hle, ⟨n, hn⟩, hbody⟩ := h
  refine hn.next.mono (fun _ _ => trivial) fun q hq => ⟨j + 1, Nat.le_succ_of_le hle, ⟨n, hq⟩, fun i hi hlt => ?_⟩
  rcases Nat.eq_or_lt_of_le (Nat.le_of_lt_succ hlt) with rfl | hlt
  · exact fun h => hends (hn.ends_iff.2 h)
  · exact hbody i hi hlt

/-- The next token, behind one of a type that ends no section. -/
theorem next_of_check (h : s.Walks k p) {type : TokenType} (hcheck : p.parserCheck type = true)
    (heof : type ≠ .EOF) (hheading : type ≠ .HEADING) : Ensures anyFault (s.Walks k) p.parserNext := by
  refine h.next ?_
  obtain rfl : p.parserPeekType = type := by simpa [parserCheck] using hcheck
  have hlevel : p.headingLevel = 0 := by
    rw [FluxParser.headingLevel, if_neg]
    simpa [parserCheck] using hheading
  simp [parserCheck, heof, atSection, hlevel]

theorem skipNewlines (h : s.Walks k p) : Ensures anyFault (s.Walks k) (p.parserSkipNewlines fuel) := by
  refine ensures_loop_of_keeps trivial (fun q hq => ?_) h
  split
  · next hnew =>
    rw [ensures_map]
    refine (hq.next_of_check hnew (by decide) (by decide)).imp fun q' hq' t ht => ?_
    obtain rfl := Option.some.inj ht
    exact hq'
  · intro t ht
    cases ht

theorem skipToSection (h : s.Walks k p) : Ensures anyFault (s.Walks k) (p.parserSkipToSection fuel) := by
  refine ensures_loop_of_keeps trivial (fun q hq => ?_) h
  split
  · intro t ht
    cases ht
  · next hends =>
    rw [ensures_map]
    refine (hq.next hends).imp fun q' hq' t ht => ?_
    obtain rfl := Option.some.inj ht
    exact hq'

end Walks

/-- The node is there, and it holds `x`. -/
def IsReading (node : Option AstNode) (x : Option Reading) : Prop := ∃ a, node = some a ∧ a.fields.reading? = x

variable {x : Option Reading} {fields : AstFields}

theorem fields_addChild (parent : AstNode) (child : Option AstNode) :
    (parent.addChild child).fields = parent.fields := by
  cases child with
  | none => rfl
  | some child =>
    unfold AstNode.addChild
    simp only
    split <;> rfl

theorem IsReading.addChild (h : IsReading node x) (child : Option AstNode) :
    IsReading (astAddChild node child) x := by
  obtain ⟨a, rfl, hreading⟩ := h
  exact ⟨a.addChild child, rfl, by rw [fields_addChild, hreading]⟩

variable {onMeta : List UInt8 → List UInt8 → Option AstNode → Except ParseFault (Option AstNode)}

/-- What the parse of the section with the heading `k` returns, behind tokens for which nothing is read. -/
structure ParsesTo (s : TokenStream) (k : Nat) (r : Option AstNode × FluxParser Nat) : Prop where
  passed : ∃ j, k < j ∧ s.At r.2 j ∧ ∀ i, k < i → i < j → s.readingAt i = none
  reading : r.1.map (fun node => node.fields.reading?) = (s.sectionReading k).map some

section

variable (hasked : s.Asked p k n) (hroom : n < astPoolSize) (hlevel : s.level k = 2) (hfuel : s.length < fuel)

theorem At.text (h : s.At p k) : p.parserPeekText = s.text k := by
  obtain ⟨n, hn⟩ := h
  exact hn.text

end

/-! ## Documents -/

/-- The children are what is read for the items in front of token `k`, as far as a node has room for them. -/
def Outlined (s : TokenStream) (node : AstNode) (k : Nat) : Prop :=
  node.outline = ((s.readingsBefore k).map some).take astMaxChildren

theorem outline_addChild (parent : AstNode) (child : Option AstNode) {l : List (Option Reading)}
    (h : parent.outline = l.take astMaxChildren) :
    (parent.addChild child).outline =
      (l ++ (child.map fun node => node.fields.reading?).toList).take astMaxChildren := by
  cases child with
  | none =>
    rw [Option.map_none, Option.toList_none, List.append_nil]
    exact h
  | some child =>
    have hlength : parent.children.length = min astMaxChildren l.length := by
      have := congrArg List.length h
      rwa [AstNode.outline, List.length_map, List.length_take] at this
    unfold AstNode.addChild
    simp only
    rw [Option.map_some, Option.toList_some]
    split
    · next hroom =>
      have hle : l.length < astMaxChildren := by omega
      show (parent.children ++ [child]).map _ = _
      rw [List.map_append, List.map_singleton, List.take_of_length_le (by simp; omega)]
      have hl : parent.outline = l := h.trans (List.take_of_length_le (Nat.le_of_lt hle))
      rw [← hl]
      rfl
    · next hfull =>
      rw [h, List.take_append_of_le_length (by omega)]

theorem Outlined.addChild (h : s.Outlined module k) {child : Option AstNode}
    (hchild : child.map (fun node => node.fields.reading?) = (s.readingAt k).map some) (hle : k < j)
    (hnone : ∀ i, k < i → i < j → s.readingAt i = none) : s.Outlined (module.addChild child) j := by
  rw [Outlined, outline_addChild module child h, hchild, readingsBefore_of_none hle fun i hi hlt => hnone i hi hlt,
    readingsBefore, List.map_append]
  cases s.readingAt k <;> rfl

/-- While the document leaves room in the pool, the nodes that were asked for so far did as well. -/
theorem Reached.room (h : s.Reached k place) (hroom : s.requested s.ending < astPoolSize) :
    s.requested k < astPoolSize := by
  refine Nat.lt_of_le_of_lt (requested_mono ?_) hroom
  exact Nat.le_of_not_lt fun hlt => h.reached _ hlt (Nat.find_spec s.exists_eof)

end TokenStream

end FluxOs
