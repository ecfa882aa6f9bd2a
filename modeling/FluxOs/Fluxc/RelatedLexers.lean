import FluxOs.Fluxc.Parser
import FluxOs.Lib.Couplings

/-!
# Parsers on related lexers

The parser reaches its lexer through the functions that it was set up with.  Two lexers that put the same token into
the buffer at each call, from states that a relation connects, are the same lexer to it: the parsers take the same
turns, build the same nodes and end with the same fault, and leave the lexers in related states.
-/

namespace FluxOs

open Faulting

variable {L L' : Type} {fns : LexerFns L} {fns' : LexerFns L'} {R : L → L' → Prop}

/-- In related states the functions of two lexers fill the buffer with the same token, and keep the states related. -/
structure LexerFns.Alike (fns : LexerFns L) (fns' : LexerFns L') (R : L → L' → Prop) : Prop where
  next {l : L} {l' : L'} (buffer : FluxToken) (h : R l l') :
    InStep (fun r r' => R r.1 r'.1 ∧ ∃ tok, r.2 = some tok ∧ r'.2 = some tok) (fns.nextFn l (some buffer))
      (fns'.nextFn l' (some buffer))
  line {l : L} {l' : L'} (h : R l l') : fns'.lineFn l' = fns.lineFn l

namespace FluxParser

/-- Two parsers with the same token, which differ in their lexers only, and these are in related states. -/
structure Twin (fns : LexerFns L) (fns' : LexerFns L') (R : L → L' → Prop) (p : FluxParser L)
    (p' : FluxParser L') : Prop where
  source : ∃ l l', R l l' ∧ p.source = some (l, fns) ∧ p'.source = some (l', fns')
  token : ∃ tok, p.peekTok = some tok ∧ p'.peekTok = some tok
  pool : p'.pool = p.pool
  numErrors : p'.numErrors = p.numErrors
  maxErrors : p'.maxErrors = p.maxErrors

/-- The parsers of two states of a loop are twins, and what stands beside them is the same. -/
def TwinTurns (fns : LexerFns L) (fns' : LexerFns L') (R : L → L' → Prop) {α : Type} (s : FluxParser L × α)
    (s' : FluxParser L' × α) : Prop :=
  ∃ p p' a, s = (p, a) ∧ s' = (p', a) ∧ Twin fns fns' R p p'

/-- Two functions return the same and leave twins. -/
def TwinResults (fns : LexerFns L) (fns' : LexerFns L') (R : L → L' → Prop) {α : Type} (r : α × FluxParser L)
    (r' : α × FluxParser L') : Prop :=
  ∃ a p p', r = (a, p) ∧ r' = (a, p') ∧ Twin fns fns' R p p'

variable {p : FluxParser L} {p' : FluxParser L'} {fuel : Nat}

namespace Twin

/-! ## The token and the pool -/

theorem peekTok (h : Twin fns fns' R p p') : p'.peekTok = p.peekTok := by
  obtain ⟨tok, htok, htok'⟩ := h.token
  rw [htok, htok']

theorem peekType (h : Twin fns fns' R p p') : p'.parserPeekType = p.parserPeekType := by
  rw [parserPeekType, parserPeekType, h.peekTok]

theorem text (h : Twin fns fns' R p p') : p'.parserPeekText = p.parserPeekText := by
  rw [parserPeekText, parserPeekText, h.peekTok]

theorem lang (h : Twin fns fns' R p p') : p'.parserPeekLang = p.parserPeekLang := by
  rw [parserPeekLang, parserPeekLang, h.peekTok]

theorem check (h : Twin fns fns' R p p') (type : TokenType) : p'.parserCheck type = p.parserCheck type := by
  rw [parserCheck, parserCheck, h.peekType]

theorem level (h : Twin fns fns' R p p') : p'.headingLevel = p.headingLevel := by
  rw [headingLevel, headingLevel, h.check, parserPeekHeading, parserPeekHeading, h.peekTok]

theorem atSection (h : Twin fns fns' R p p') : p'.atSection = p.atSection := by
  rw [FluxParser.atSection, FluxParser.atSection, h.level]

theorem alloc (h : Twin fns fns' R p p') (fields : AstFields) :
    TwinResults fns fns' R (p.astAlloc fields) (p'.astAlloc fields) := by
  rw [astAlloc, astAlloc, h.pool]
  split_ifs
  · exact ⟨_, _, _, rfl, rfl, h.source, h.token, rfl, h.numErrors, h.maxErrors⟩
  · exact ⟨_, _, _, rfl, rfl, h⟩

theorem makeMeta (h : Twin fns fns' R p p') (key value : List UInt8) :
    TwinResults fns fns' R (p.astMakeMeta key value) (p'.astMakeMeta key value) :=
  h.alloc _

theorem makeCodeInjection (h : Twin fns fns' R p p') (code lang : List UInt8) :
    TwinResults fns fns' R (p.astMakeCodeInjection code lang) (p'.astMakeCodeInjection code lang) :=
  h.alloc _

theorem makeParam (h : Twin fns fns' R p p') (name type : List UInt8) :
    TwinResults fns fns' R (p.astMakeParam name type) (p'.astMakeParam name type) :=
  h.alloc _

theorem addParams (h : Twin fns fns' R p p') (func : AstNode) (params : List UInt8) :
    TwinResults fns fns' R (p.addParams func params) (p'.addParams func params) := by
  unfold FluxParser.addParams
  generalize commaSeparated params = parts
  induction parts generalizing p p' func with
  | nil => exact ⟨_, _, _, rfl, rfl, h⟩
  | cons part parts ih =>
    rw [List.foldl_cons, List.foldl_cons]
    rcases parseParam part with ⟨name, type⟩
    obtain ⟨node, q, q', hq, hq', htwin⟩ := h.makeParam name type
    dsimp only
    rw [hq, hq']
    exact ih htwin _

end Twin

theorem twin_turns {α : Type} {turn : FluxParser L × α → Except ParseFault (Option (FluxParser L × α))}
    {turn' : FluxParser L' × α → Except ParseFault (Option (FluxParser L' × α))}
    (hturn : ∀ p p' a, Twin fns fns' R p p' →
      InStep (Option.Rel (TwinTurns fns fns' R)) (turn (p, a)) (turn' (p', a)))
    (h : Twin fns fns' R p p') (a : α) :
    InStep (TwinTurns fns fns' R) (loop fuel turn (p, a)) (loop fuel turn' (p', a)) := by
  refine inStep_loop (fun s s' hs => ?_) ⟨_, _, _, rfl, rfl, h⟩
  obtain ⟨p, p', a, rfl, rfl, h⟩ := hs
  exact hturn p p' a h

/-! ## Moves -/

variable (hR : fns.Alike fns' R)

include hR

theorem Twin.line (h : Twin fns fns' R p p') : p'.line = p.line := by
  obtain ⟨l, l', hl, hs, hs'⟩ := h.source
  rw [FluxParser.line, FluxParser.line, hs, hs']
  exact hR.line hl

theorem Twin.next (h : Twin fns fns' R p p') : InStep (Twin fns fns' R) p.parserNext p'.parserNext := by
  obtain ⟨l, l', hl, hs, hs'⟩ := h.source
  obtain ⟨buffer, hbuffer, hbuffer'⟩ := h.token
  unfold parserNext
  rw [hs, hs', hbuffer, hbuffer']
  exact (hR.next buffer hl).bind fun r r' hr =>
    ⟨⟨_, _, hr.1, rfl, rfl⟩, hr.2, h.pool, h.numErrors, h.maxErrors⟩

theorem Twin.skipNewlines (h : Twin fns fns' R p p') :
    InStep (Twin fns fns' R) (p.parserSkipNewlines fuel) (p'.parserSkipNewlines fuel) := by
  refine inStep_loop (fun p p' h => ?_) h
  rw [h.check]
  exact inStep_ite (fun _ => (h.next hR).bind fun p p' h => .some h) fun _ => .none

theorem Twin.skipToSection (h : Twin fns fns' R p p') :
    InStep (Twin fns fns' R) (p.parserSkipToSection fuel) (p'.parserSkipToSection fuel) := by
  refine inStep_loop (fun p p' h => ?_) h
  rw [h.check, h.atSection]
  exact inStep_ite (fun _ => .none) fun _ => (h.next hR).bind fun p p' h => .some h

/-! ## Sections -/

theorem Twin.makeBlock (h : Twin fns fns' R p p') : TwinResults fns fns' R p.astMakeBlock p'.astMakeBlock := by
  unfold astMakeBlock
  rw [h.line hR]
  exact h.alloc _

theorem Twin.functionTurn (h : Twin fns fns' R p p') (s : AstNode × AstNode) :
    InStep (Option.Rel (TwinTurns fns fns' R)) (FluxParser.functionTurn fuel (p, s))
      (FluxParser.functionTurn fuel (p', s)) := by
  unfold FluxParser.functionTurn
  dsimp only
  rw [h.check, h.check, h.check, h.atSection]
  refine inStep_ite (fun _ => .none) fun _ => inStep_ite (fun _ => ?_) fun _ => inStep_ite (fun _ => ?_) fun _ => ?_
  · refine (h.next hR).bind fun p p' h => (h.skipNewlines hR).bind fun p p' h => ?_
    obtain ⟨node, q, q', hq, hq', htwin⟩ := h.makeCodeInjection p.parserPeekText p.parserPeekLang
    rw [h.text, h.lang, hq, hq']
    cases node with
    | none => exact .some ⟨_, _, _, rfl, rfl, htwin⟩
    | some node => exact .some ⟨_, _, _, rfl, rfl, htwin⟩
  · refine (h.next hR).bind fun p p' h => ?_
    rw [h.check]
    refine inStep_ite (fun _ => ?_) fun _ => .some ⟨_, _, _, rfl, rfl, h⟩
    refine (h.next hR).bind fun p p' h => ?_
    obtain ⟨node, q, q', hq, hq', htwin⟩ := h.makeMeta p.parserPeekText p.parserPeekText
    rw [h.text, hq, hq']
    exact .some ⟨_, _, _, rfl, rfl, htwin⟩
  · exact (h.next hR).bind fun p p' h => .some ⟨_, _, _, rfl, rfl, h⟩

theorem Twin.parseFunctionSection (h : Twin fns fns' R p p') :
    InStep (TwinResults fns fns' R) (p.parseFunctionSection fuel) (p'.parseFunctionSection fuel) := by
  unfold FluxParser.parseFunctionSection
  refine (h.next hR).bind fun p p' h => (h.skipNewlines hR).bind fun p p' h => ?_
  rw [h.text]
  generalize parseSignature p.parserPeekText = sig
  dsimp only [astMakeFunction]
  rw [h.line hR]
  obtain ⟨func, q, q', hq, hq', h⟩ :=
    h.alloc { type := .FUNCTION, line := p.line, name := printed astNameMax sig.name }
  rw [hq, hq']
  cases func with
  | none => exact ⟨_, _, _, rfl, rfl, h⟩
  | some func =>
    dsimp only
    obtain ⟨func, q, q', hq, hq', h⟩ := h.addParams
      (func.withFields ({ · with typeName := printed 64 sig.retType, hasType := true })) sig.params
    rw [hq, hq']
    obtain ⟨body, q, q', hq, hq', h⟩ := h.makeBlock hR
    dsimp only
    rw [hq, hq']
    cases body with
    | none => exact ⟨_, _, _, rfl, rfl, h⟩
    | some body =>
      refine (twin_turns (fun p p' s h => h.functionTurn hR s) h _).bind fun s s' hs => ?_
      obtain ⟨p, p', ⟨func, body⟩, rfl, rfl, h⟩ := hs
      exact ⟨_, _, _, rfl, rfl, h⟩

section

variable {onMeta : List UInt8 → List UInt8 → Option AstNode → Except ParseFault (Option AstNode)}

theorem Twin.bodyTurn (h : Twin fns fns' R p p') (s : Option AstNode × AstNode) :
    InStep (Option.Rel (TwinTurns fns fns' R)) (FluxParser.bodyTurn onMeta (p, s))
      (FluxParser.bodyTurn onMeta (p', s)) := by
  unfold FluxParser.bodyTurn
  dsimp only
  rw [h.check, h.check, h.check, h.atSection]
  refine inStep_ite (fun _ => .none) fun _ => inStep_ite (fun _ => ?_) fun _ => inStep_ite (fun _ => ?_) fun _ => ?_
  · refine (h.next hR).bind fun p p' h => ?_
    obtain ⟨node, q, q', hq, hq', htwin⟩ := h.makeCodeInjection p.parserPeekText p.parserPeekLang
    rw [h.text, h.lang, hq, hq']
    exact .some ⟨_, _, _, rfl, rfl, htwin⟩
  · refine (h.next hR).bind fun p p' h => ?_
    rw [h.check]
    refine inStep_ite (fun _ => ?_) fun _ => .some ⟨_, _, _, rfl, rfl, h⟩
    refine (h.next hR).bind fun p p' h => ?_
    obtain ⟨entry, q, q', hq, hq', htwin⟩ := h.makeMeta p.parserPeekText p.parserPeekText
    rw [h.text, hq, hq']
    refine (inStep_same _).bind fun node node' heq => ?_
    subst heq
    exact .some ⟨_, _, _, rfl, rfl, htwin⟩
  · exact (h.next hR).bind fun p p' h => .some ⟨_, _, _, rfl, rfl, h⟩

theorem Twin.parseBody (h : Twin fns fns' R p p') (node : Option AstNode) :
    InStep (TwinResults fns fns' R) (p.parseBody fuel onMeta node) (p'.parseBody fuel onMeta node) := by
  obtain ⟨body, q, q', hq, hq', h⟩ := h.makeBlock hR
  unfold FluxParser.parseBody
  rw [hq, hq']
  cases body with
  | none => exact ⟨_, _, _, rfl, rfl, h⟩
  | some body =>
    refine (twin_turns (fun p p' s h => h.bodyTurn hR s) h _).bind fun s s' hs => ?_
    obtain ⟨p, p', ⟨node, body⟩, rfl, rfl, h⟩ := hs
    exact ⟨_, _, _, rfl, rfl, h⟩

end

theorem Twin.parseAgentSection (h : Twin fns fns' R p p') :
    InStep (TwinResults fns fns' R) (p.parseAgentSection fuel) (p'.parseAgentSection fuel) := by
  unfold FluxParser.parseAgentSection
  refine (h.next hR).bind fun p p' h => (h.skipNewlines hR).bind fun p p' h => ?_
  obtain ⟨agent, q, q', hq, hq', hmade⟩ :
      TwinResults fns fns' R (p.astMakeAgentOp (sectionName "agent" p.parserPeekText) (bytes "agent"))
        (p'.astMakeAgentOp (sectionName "agent" p.parserPeekText) (bytes "agent")) := h.alloc _
  rw [h.text, hq, hq']
  exact hmade.parseBody hR agent

theorem Twin.parseTileSection (h : Twin fns fns' R p p') :
    InStep (TwinResults fns fns' R) (p.parseTileSection fuel) (p'.parseTileSection fuel) := by
  unfold FluxParser.parseTileSection
  refine (h.next hR).bind fun p p' h => (h.skipNewlines hR).bind fun p p' h => ?_
  obtain ⟨tile, q, q', hq, hq', hmade⟩ :
      TwinResults fns fns' R (p.astMakeTile (sectionName "tile" p.parserPeekText) (bytes "compute"))
        (p'.astMakeTile (sectionName "tile" p.parserPeekText) (bytes "compute")) := h.alloc _
  rw [h.text, hq, hq']
  exact hmade.parseBody hR tile

theorem Twin.regionTurn (h : Twin fns fns' R p p') (region : Option AstNode) :
    InStep (Option.Rel (TwinTurns fns fns' R)) (FluxParser.regionTurn (p, region))
      (FluxParser.regionTurn (p', region)) := by
  unfold FluxParser.regionTurn
  dsimp only
  rw [h.check, h.check, h.atSection]
  refine inStep_ite (fun _ => .none) fun _ => inStep_ite (fun _ => ?_) fun _ => ?_
  · refine (h.next hR).bind fun p p' h => ?_
    rw [h.check]
    refine inStep_ite (fun _ => ?_) fun _ => .some ⟨_, _, _, rfl, rfl, h⟩
    refine (h.next hR).bind fun p p' h => ?_
    obtain ⟨entry, q, q', hq, hq', htwin⟩ := h.makeMeta p.parserPeekText p.parserPeekText
    rw [h.text, hq, hq']
    refine (inStep_same _).bind fun region region' heq => ?_
    subst heq
    exact .some ⟨_, _, _, rfl, rfl, htwin⟩
  · exact (h.next hR).bind fun p p' h => .some ⟨_, _, _, rfl, rfl, h⟩

theorem Twin.parseRegionSection (h : Twin fns fns' R p p') :
    InStep (TwinResults fns fns' R) (p.parseRegionSection fuel) (p'.parseRegionSection fuel) := by
  unfold FluxParser.parseRegionSection
  refine (h.next hR).bind fun p p' h => (h.skipNewlines hR).bind fun p p' h => ?_
  obtain ⟨region, q, q', hq, hq', hmade⟩ :
      TwinResults fns fns' R (p.astMakeRegion (sectionName "region" p.parserPeekText) 4096 (bytes "rw"))
        (p'.astMakeRegion (sectionName "region" p.parserPeekText) 4096 (bytes "rw")) := h.alloc _
  rw [h.text, hq, hq']
  refine (twin_turns (fun p p' s h => h.regionTurn hR s) hmade _).bind fun s s' hs => ?_
  obtain ⟨p, p', region, rfl, rfl, h⟩ := hs
  exact ⟨_, _, _, rfl, rfl, h⟩

theorem Twin.parseSection (h : Twin fns fns' R p p') :
    InStep (TwinResults fns fns' R) (p.parseSection fuel) (p'.parseSection fuel) := by
  unfold FluxParser.parseSection
  rw [h.text]
  split
  · exact h.parseFunctionSection hR
  · exact h.parseAgentSection hR
  · exact h.parseTileSection hR
  · exact h.parseRegionSection hR
  · refine (h.next hR).bind fun p p' h => ?_
    rw [h.text]
    exact h.alloc _
  · refine (h.next hR).bind fun p p' h => ?_
    rw [h.text]
    exact h.alloc _
  · exact (h.next hR).bind fun p p' h => (h.skipToSection hR).bind fun p p' h => ⟨_, _, _, rfl, rfl, h⟩

/-! ## Documents -/

theorem Twin.moduleTurn (h : Twin fns fns' R p p') (module : AstNode) :
    InStep (Option.Rel (TwinTurns fns fns' R)) (FluxParser.moduleTurn fuel (p, module))
      (FluxParser.moduleTurn fuel (p', module)) := by
  unfold FluxParser.moduleTurn
  dsimp only
  rw [h.check]
  refine inStep_ite (fun _ => .none) fun _ => (h.skipNewlines hR).bind fun p p' h => ?_
  rw [h.check, h.check, h.check, h.level]
  refine inStep_ite (fun _ => .some ⟨_, _, _, rfl, rfl, h⟩) fun _ => inStep_ite (fun _ => ?_) fun _ =>
    inStep_ite (fun _ => ?_) fun _ => inStep_ite (fun _ => ?_) fun _ => inStep_ite (fun _ => ?_) fun _ =>
    inStep_ite (fun _ => ?_) fun _ => ?_
  · exact (h.next hR).bind fun p p' h => .some ⟨_, _, _, rfl, rfl, h⟩
  · refine (h.parseSection hR).bind fun r r' hr => ?_
    obtain ⟨node, p, p', rfl, rfl, h⟩ := hr
    exact .some ⟨_, _, _, rfl, rfl, h⟩
  · exact (h.next hR).bind fun p p' h => (h.skipToSection hR).bind fun p p' h => .some ⟨_, _, _, rfl, rfl, h⟩
  · refine (h.next hR).bind fun p p' h => ?_
    obtain ⟨node, q, q', hq, hq', htwin⟩ := h.makeCodeInjection p.parserPeekText p.parserPeekLang
    rw [h.text, h.lang, hq, hq']
    exact .some ⟨_, _, _, rfl, rfl, htwin⟩
  · refine (h.next hR).bind fun p p' h => ?_
    rw [h.check]
    refine inStep_ite (fun _ => ?_) fun _ => .some ⟨_, _, _, rfl, rfl, h⟩
    refine (h.next hR).bind fun p p' h => ?_
    obtain ⟨entry, q, q', hq, hq', htwin⟩ := h.makeMeta p.parserPeekText p.parserPeekText
    rw [h.text, hq, hq']
    exact .some ⟨_, _, _, rfl, rfl, htwin⟩
  · exact (h.next hR).bind fun p p' h => .some ⟨_, _, _, rfl, rfl, h⟩

theorem Twin.parseModuleHeading (h : Twin fns fns' R p p') :
    InStep (TwinResults fns fns' R) (p.parseModuleHeading fuel) (p'.parseModuleHeading fuel) := by
  unfold FluxParser.parseModuleHeading
  rw [h.level, h.text]
  refine inStep_ite (fun _ => ?_) fun _ => ⟨_, _, _, rfl, rfl, h⟩
  exact (h.next hR).bind fun p p' h => (h.skipNewlines hR).bind fun p p' h => ⟨_, _, _, rfl, rfl, h⟩

theorem Twin.parseModule (h : Twin fns fns' R p p') (name : List UInt8) :
    InStep (TwinResults fns fns' R) (p.parseModule fuel name) (p'.parseModule fuel name) := by
  unfold FluxParser.parseModule astMakeModule
  rw [h.line hR]
  obtain ⟨module, q, q', hq, hq', h⟩ :=
    h.alloc { type := .MODULE, line := p.line, name := printed astNameMax name }
  rw [hq, hq']
  cases module with
  | none => exact ⟨_, _, _, rfl, rfl, h⟩
  | some module =>
    refine (twin_turns (fun p p' s h => h.moduleTurn hR s) h _).bind fun s s' hs => ?_
    obtain ⟨p, p', module, rfl, rfl, h⟩ := hs
    exact ⟨_, _, _, rfl, rfl, h⟩

/-- The parsers of two lexers that answer alike return the same tree, or end with the same fault. -/
theorem Twin.fluxParserParse (h : Twin fns fns' R p p') (fuel : Nat) :
    InStep (TwinResults fns fns' R) (p.fluxParserParse fuel) (p'.fluxParserParse fuel) := by
  have hstart : Twin fns fns' R { p with pool := 0, numErrors := 0 } { p' with pool := 0, numErrors := 0 } :=
    ⟨h.source, h.token, rfl, rfl, h.maxErrors⟩
  refine (hstart.next hR).bind fun p p' h => (h.parseModuleHeading hR).bind fun r r' hr => ?_
  obtain ⟨name, p, p', rfl, rfl, h⟩ := hr
  exact h.parseModule hR name

end FluxParser

end FluxOs
