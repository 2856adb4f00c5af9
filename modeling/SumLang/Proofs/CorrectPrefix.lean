import SumLang.Proofs.Tracking

/-! Faults of the grammar are found at the earliest place: every rule keeps to what can still become
a program, and blames the first token that cannot. -/
namespace SumLang

open Cursor (Spans)
open Grammar

namespace Grammar

inductive Closed {α : Type} (list : List Token → List α → Prop) (close : Symbol) :
    List Token → List α → Prop where
  | intro {ts as r} : list ts as → Is r close → Closed list close (ts ++ [r]) as

theorem Closed.nil {α : Type} {item : List Token → α → Prop} {close : Symbol} {r : Token}
    (hr : Is r close) : Closed (Repeated item) close [r] [] :=
  .intro Repeated.nil hr

end Grammar

namespace Parser

variable {α : Type} {c : Cursor} {n : Nat}

section Lists

variable {item : List Token → α → Prop} {one : Parser α} {more : Parser (List α)}

theorem tracks_listed (hone : Tracks one item c)
    (hmore : ∀ c, Tracks more (Closed (Separated item) .rightParen) c) :
    Tracks (do
      let a ← one
      if ← take? .comma then return a :: (← more)
      else do
        mark .rightParen ")"
        return [a]) (Closed (Separated item) .rightParen) c := by
  refine hone.bind fun ts a c₁ ha => Tracks.take?_bind ?_ ?_
  · intro comma c₂ hcomma
    refine (hmore c₂).bind fun us as c₃ has => .pure ?_
    obtain ⟨hus, hr⟩ := has
    have hlist := Closed.intro (Separated.cons ha hcomma hus) hr
    simpa using hlist
  · refine readsToken_mark.bind fun r _ c₂ hr => .pure ?_
    exact .intro (.last ha) hr

theorem tracks_opened (hmore : ∀ c, Tracks more (Closed (Separated item) .rightParen) c) :
    Tracks (do
      mark .leftParen "("
      if ← isAt .rightParen then do
        advance
        return []
      else more) (Parenthesized item) c := by
  refine readsToken_mark.bind fun l _ c₁ hl => Tracks.isAt_bind ?_
  have hitems : Tracks more (fun us as => Parenthesized item (l :: us) as) c₁ := by
    refine (hmore c₁).mono fun us as hus => ?_
    obtain ⟨hus, hr⟩ := hus
    exact .items hl hus hr
  cases hs : c₁.sees .rightParen with
  | true =>
    obtain ⟨r, hr, hspan⟩ := Cursor.exists_of_sees hs
    exact Tracks.advance_bind hspan hitems.live (.pure (.empty hl hr))
  | false => exact hitems

end Lists

section Samples

/-! Every relation of the grammar has a phrase. -/

theorem live_primary : Live Primary := by
  obtain ⟨t, x, ht, hx⟩ := exists_isName
  exact ⟨[t], .name x, by simp [NonnegPrecedence, ht], .name hx⟩

theorem expression_of_primary {ts : List Token} {e : Node} (h : Primary ts e) :
    Expression ts e := by
  have hchain : Expression (ts ++ []) e := .chain (g := .operand e) h .nil trivial
  rwa [List.append_nil] at hchain

theorem live_expression : Live Expression := by
  obtain ⟨ts, e, hn, he⟩ := live_primary
  exact ⟨ts, e, hn, expression_of_primary he⟩

theorem live_closed {list : List Token → List α → Prop} (h : Live list) (close : Symbol) :
    Live (Closed list close) := by
  obtain ⟨ts, as, hn, has⟩ := h
  obtain ⟨r, hp, hr⟩ := exists_is close
  exact ⟨ts ++ [r], as, hn.append (by simp [NonnegPrecedence, hp]), .intro has hr⟩

theorem live_parenthesized {item : List Token → α → Prop} : Live (Parenthesized item) := by
  obtain ⟨l, hp, hl⟩ := exists_is .leftParen
  obtain ⟨r, hp', hr⟩ := exists_is .rightParen
  exact ⟨[l, r], [], by simp [NonnegPrecedence, hp, hp'], .empty hl hr⟩

theorem live_separated {item : List Token → α → Prop} (h : Live item) : Live (Separated item) := by
  obtain ⟨ts, a, hn, ha⟩ := h
  exact ⟨ts, [a], hn, .last ha⟩

end Samples

/-- With a given fuel, the rules for expressions track the grammar. The operations behind an operand
are described without the tree that they build. -/
structure ExpressionsTracked (n : Nat) : Prop where
  expression (c : Cursor) : Tracks (expressionWith n) Expression c
  operations (least : Int) (left : Node) (c : Cursor) :
    Tracks (operationsWith n least left) (fun ts _ => ∃ ops, Operations Primary ts ops) c
  primary (c : Cursor) : Tracks (primaryWith n) Primary c
  arguments (c : Cursor) : Tracks (argumentsWith n) Arguments c
  items (c : Cursor) : Tracks (itemsWith n) (Closed (Separated Expression) .rightParen) c

namespace ExpressionsTracked

theorem expression_succ (h : ExpressionsTracked n) (c : Cursor) :
    Tracks (expressionWith (n + 1)) Expression c := by
  have hchain : Tracks (expressionWith (n + 1)) (fun ts _ => ∃ e, Expression ts e) c := by
    rw [expressionWith]
    refine (h.primary c).bind fun ts first c₁ hfirst =>
      (h.operations 0 first c₁).mono fun us _ hus => ?_
    obtain ⟨ops, hops⟩ := hus
    have hg : (Grouping.operand first).ByPrecedence := trivial
    refine ⟨_, .chain ?_ ?_ (hg.extend ops)⟩
    · rwa [Grouping.first_extend]
    · rwa [Grouping.rest_extend]
  exact hchain.of_exists (expressionsSound (n + 1)).expression fun _ _ h => h

theorem operations_succ (h : ExpressionsTracked n) (least : Int) (left : Node) (c : Cursor) :
    Tracks (operationsWith (n + 1) least left)
      (fun ts _ => ∃ ops, Operations Primary ts ops) c := by
  have hstop : Tracks (pure left) (fun ts _ => ∃ ops, Operations Primary ts ops) c :=
    .pure ⟨[], .nil⟩
  rw [operationsWith]
  refine Tracks.peekOperator_bind ?_
  cases hop : c.operator? with
  | none => exact hstop
  | some o =>
  obtain ⟨op, p⟩ := o
  dsimp only
  split
  · exact hstop
  obtain ⟨t, ht, -, hspan⟩ := Cursor.exists_of_operator? hop
  refine Tracks.advance_bind hspan hstop.live ?_
  refine (h.primary c.next).bind fun ts operand c₁ hts => Tracks.bindsTighter_bind ?_
  split
  · refine (h.operations _ operand c₁).bind fun us right c₂ hus => ?_
    refine (h.operations least _ c₂).mono fun vs _ hvs => ?_
    obtain ⟨inner, hus⟩ := hus
    obtain ⟨outer, hvs⟩ := hvs
    exact ⟨_, .cons ht hts (hus.append hvs)⟩
  · rw [pure_bind]
    refine (h.operations least _ c₁).mono fun us _ hus => ?_
    obtain ⟨ops, hus⟩ := hus
    exact ⟨_, .cons ht hts hus⟩

theorem primary_succ (h : ExpressionsTracked n) (c : Cursor) :
    Tracks (primaryWith (n + 1)) Primary c := by
  rw [primaryWith]
  refine Tracks.peek_bind ?_
  cases hhead : c.rest.head? with
  | none => exact Tracks.fail live_primary (blames_of_fail (by decide))
  | some t =>
  have hspan : Spans c [t] c.next := Cursor.spans_singleton.2 ⟨hhead, rfl⟩
  have hliteral : ∀ {e}, IsLiteral t e → Tracks (do advance; return e) Primary c := fun he =>
    Tracks.advance_bind hspan live_primary (.pure (.literal he))
  simp only [Option.map_some]
  split
  · next x hx =>
    have hx : IsName t x := by simpa using hx
    refine Tracks.advance_bind hspan live_primary (Tracks.isAt_bind ?_)
    split
    · refine (h.arguments c.next).bind fun ts as c₁ has => .pure ?_
      rw [List.append_nil]
      exact .call hx has
    · exact .pure (.name hx)
  · next k hk => exact hliteral (.integer (by simpa using hk))
  · next k hk => exact hliteral (.float (by simpa using hk))
  · next k hk => exact hliteral (.string (by simpa using hk))
  · next k hk => exact hliteral (.boolean (by simpa using hk))
  · next v hv =>
    have hl : Is t .leftParen := Token.isSymbol_of_content (by simpa using hv)
    refine Tracks.advance_bind hspan live_primary ?_
    refine (h.expression c.next).bind fun ts e c₁ he => readsToken_mark.bind fun r _ c₂ hr => ?_
    exact .pure (.group hl he hr)
  · exact Tracks.fail live_primary (blames_of_fail (by decide))

theorem arguments_succ (h : ExpressionsTracked n) (c : Cursor) :
    Tracks (argumentsWith (n + 1)) Arguments c := by
  rw [argumentsWith]
  exact tracks_opened h.items

theorem items_succ (h : ExpressionsTracked n) (c : Cursor) :
    Tracks (itemsWith (n + 1)) (Closed (Separated Expression) .rightParen) c := by
  rw [itemsWith]
  exact tracks_listed (h.expression c) h.items

end ExpressionsTracked

theorem expressionsTracked (n : Nat) : ExpressionsTracked n := by
  induction n with
  | zero =>
    have hblames : ∀ {α : Type} {c : Cursor} {f : GrammarFault},
        Fails (fail (α := α) .expression none none) c f → f.Blames c.index :=
      blames_of_fail (by decide)
    have hitems := live_closed (live_separated live_expression) .rightParen
    refine ⟨fun _ => .fail live_expression hblames, fun _ left _ => .fail ?_ hblames,
      fun _ => .fail live_primary hblames, fun _ => .fail ?_ hblames, fun _ => .fail hitems hblames⟩
    · exact ⟨[], left, by simp [NonnegPrecedence], [], .nil⟩
    · exact live_parenthesized
  | succ n ih =>
    exact ⟨ih.expression_succ, ih.operations_succ, ih.primary_succ, ih.arguments_succ,
      ih.items_succ⟩

theorem tracks_expression (c : Cursor) : Tracks expression Expression c :=
  .fueled settles_expressionWith fun n => (expressionsTracked n).expression c

theorem tracks_arguments (c : Cursor) : Tracks arguments Arguments c :=
  .fueled settles_argumentsWith fun n => (expressionsTracked n).arguments c

theorem tracks_formal (c : Cursor) : Tracks formal Formal c :=
  readsToken_identifier.bind fun _ _ _ hx => readsToken_mark.bind fun _ _ _ hcolon =>
    readsToken_typeName.bind fun _ _ _ ht => .pure (.intro hx hcolon ht)

theorem tracks_formalItems (c : Cursor) :
    Tracks (formalItems n) (Closed (Separated Formal) .rightParen) c := by
  induction n generalizing c with
  | zero =>
    exact .fail (live_closed (live_separated (tracks_formal c).live) _) (blames_of_fail (by decide))
  | succ n ih =>
    rw [formalItems]
    exact tracks_listed (tracks_formal c) ih

theorem tracks_formals (c : Cursor) : Tracks formals Formals c :=
  tracks_opened fun _ => .fueled settles_formalItems fun _ => tracks_formalItems _

theorem tracks_optional {list : Parser (List α)} {L : List Token → List α → Prop}
    (h : Tracks list L c) :
    Tracks (do if ← isAt .leftParen then list else return []) (Optional L) c := by
  refine Tracks.isAt_bind ?_
  split
  · exact h.mono fun _ _ => .some
  · exact .pure .none

theorem tracks_optionalFormals (c : Cursor) : Tracks optionalFormals (Optional Formals) c :=
  tracks_optional (tracks_formals c)

theorem tracks_prototype (c : Cursor) : Tracks prototype PrototypeRule c :=
  readsToken_identifier.bind fun _ _ _ hx => (tracks_formals _).bind fun _ _ _ hvs =>
    readsToken_mark.bind fun _ _ _ harrow => readsToken_typeName.bind fun _ _ _ ht =>
    .pure (.intro hx hvs harrow ht)

/-- In a declaration with a built-in type a construction is refused where an expression could have
stood. -/
theorem tracks_construction (type : String) (c : Cursor) :
    Tracks (construction type) (Initializer type) c := by
  unfold construction
  split
  · refine .fail ?_ fun hf => ?_
    · obtain ⟨ts, e, hn, he⟩ := live_expression
      exact ⟨ts, e, hn, .expression he⟩
    · obtain rfl := fails_fail.1 hf
      refine .reported fun htests => ?_
      obtain ⟨-, type', -, hhint⟩ := htests
      have htext := congrArg String.toList (Option.some.inj hhint)
      simp at htext
  · next hb =>
    refine readsToken_mark.bind fun dot _ c₁ hdot =>
      readsToken_identifier.bind fun x case c₂ hx => Tracks.isAt_bind ?_
    split
    · refine (tracks_arguments c₂).bind fun ts as c₃ has => .pure ?_
      rw [List.append_nil]
      exact .construction (by simpa using hb) hdot hx (.some has)
    · exact .pure (.construction (by simpa using hb) hdot hx .none)

theorem tracks_declaration (c : Cursor) : Tracks declaration DeclarationRule c := by
  unfold declaration
  refine readsToken_mutability.bind fun k m c₁ hk => readsToken_identifier.bind fun x name c₂ hx =>
    readsToken_mark.bind fun colon _ c₃ hcolon => readsToken_typeName.bind fun t type c₄ ht =>
    Tracks.take?_bind ?_ ?_
  · intro stop c₅ hstop
    exact .pure (.bare hk hx hcolon ht hstop)
  refine readsToken_mark.bind fun equal _ c₅ hequal => Tracks.isAt_bind ?_
  have hend : ∀ ts value c₆, Initializer type ts value → Tracks (do
      statementEnd
      return .assign ⟨m, type, name⟩ value) (fun us n =>
        DeclarationRule (k :: x :: colon :: t :: equal :: (ts ++ us)) n) c₆ := by
    intro ts value c₆ hvalue
    exact readsToken_statementEnd.bind fun stop _ c₇ hstop =>
      .pure (.initialized hk hx hcolon ht hequal hvalue hstop)
  split
  · exact (tracks_construction type c₅).bind hend
  · exact (tracks_expression c₅).bind fun ts e c₆ he => hend ts e c₆ (.expression he)

theorem tracks_enumCase {enum : String} {k : Token} (hk : Is k .caseWord) (c : Cursor) :
    Tracks (enumCase enum) (fun us d => CaseRule enum (k :: us) d) c :=
  readsToken_identifier.bind fun _ _ _ hx => (tracks_optionalFormals _).bind fun _ _ _ hvs =>
    readsToken_statementEnd.bind fun _ _ _ hstop => .pure (.intro hk hx hvs hstop)

theorem live_repeated {item : List Token → α → Prop} : Live (Repeated item) :=
  ⟨[], [], by simp [NonnegPrecedence], .nil⟩

theorem live_braced {item : List Token → α → Prop} : Live (Braced item) := by
  obtain ⟨l, hp, hl⟩ := exists_is .leftBrace
  obtain ⟨r, hp', hr⟩ := exists_is .rightBrace
  exact ⟨[l, r], [], by simp [NonnegPrecedence, hp, hp'], .intro hl .nil hr⟩

theorem tracks_enumCases {enum : String} (c : Cursor) :
    Tracks (enumCases enum n) (Closed (Repeated (CaseRule enum)) .rightBrace) c := by
  induction n generalizing c with
  | zero => exact .fail (live_closed live_repeated _) (blames_of_fail (by decide))
  | succ n ih =>
    rw [enumCases]
    refine Tracks.take?_bind ?_ ?_
    · intro r c₁ hr
      exact .pure (.nil hr)
    refine (readsToken_expect (by decide)).bind fun k _ c₁ hk =>
      (tracks_enumCase hk c₁).bind fun ts d c₂ hd => (ih c₂).bind fun us ds c₃ hds => .pure ?_
    obtain ⟨hds, hr⟩ := hds
    have hcases := Closed.intro (Repeated.cons hd hds) hr
    simpa using hcases

theorem tracks_enumDefinition (c : Cursor) :
    Tracks enumDefinition (fun ts n => ∃ d, EnumRule ts d ∧ .enumeration d = n) c := by
  unfold enumDefinition
  refine (readsToken_expect (by decide)).bind fun k _ c₁ hk =>
    readsToken_identifier.bind fun x name c₂ hx => readsToken_mark.bind fun l _ c₃ hl => ?_
  have hcases : Tracks (fun c => enumCases name c.fuel c)
      (Closed (Repeated (CaseRule name)) .rightBrace) c₃ :=
    .fueled (settles_enumCases name) fun _ => tracks_enumCases c₃
  refine hcases.bind fun ts ds c₄ hds => .pure ?_
  obtain ⟨hds, hr⟩ := hds
  rw [List.append_nil]
  exact ⟨_, .intro hk hx (.intro hl hds hr), rfl⟩

def testedType : Parser String := do
  let type ← typeName
  if isBuiltinType type then
    fail .enumeration none
      (some ("'if let' tests an enum-typed variable, not '" ++ type ++ "'"))
  else return type

theorem testedType_bind {β : Type} (k : String → Parser β) :
    testedType >>= k = (do
      let type ← typeName
      if isBuiltinType type then
        fail .enumeration none
          (some ("'if let' tests an enum-typed variable, not '" ++ type ++ "'"))
      else k type) := by
  rw [testedType, bind_assoc]
  congr 1
  funext type
  split <;> rfl

/-- A built-in type is refused only at the token behind it, but it is the one to blame. -/
theorem readsToken_testedType :
    ReadsToken testedType (fun t type => IsType t type ∧ isBuiltinType type = false) := by
  refine ⟨?_, ?_, ?_⟩
  · intro c type c₁
    constructor
    · intro hr
      obtain ⟨type', c₂, ht, hr⟩ := reads_bind.1 hr
      split at hr
      · exact absurd hr not_reads_fail
      · next hb =>
        obtain ⟨rfl, rfl⟩ := reads_pure.1 hr
        obtain ⟨t, ht, hspan⟩ := reads_typeName.1 ht
        exact ⟨t, ⟨ht, by simpa using hb⟩, hspan⟩
    · rintro ⟨t, ⟨ht, hb⟩, hspan⟩
      refine (reads_typeName.2 ⟨t, ht, hspan⟩).bind_iff.2 ?_
      rw [if_neg (by simp [hb]), reads_pure]
      exact ⟨rfl, rfl⟩
  · intro c f hf
    rcases fails_bind.1 hf with hf | ⟨type, c₁, ht, hf⟩
    · exact readsToken_typeName.fails hf
    · split at hf
      · next hb =>
        obtain ⟨t, -, hspan⟩ := reads_typeName.1 ht
        obtain rfl := fails_fail.1 hf
        exact .before ⟨rfl, type, hb, rfl⟩ hspan.index
      · exact absurd hf not_fails_pure
  · exact ⟨⟨.symbol .identifier "x", "x", 0, 0⟩, "x", Int.le_refl 0, .named rfl, by decide⟩

section Bodies

variable {S : List Token → Node → Prop} {block : Parser (List Node)}
  (hblock : ∀ c, Tracks block (Braced S) c)

include hblock

theorem tracks_functionWith (c : Cursor) :
    Tracks (functionWith block) (FunctionRule (Braced S)) c := by
  refine (readsToken_expect (by decide)).bind fun k _ c₁ hk =>
    (tracks_prototype c₁).bind fun ts p c₂ hp => (hblock c₂).bind fun us body c₃ hbody => .pure ?_
  rw [List.append_nil]
  exact .intro hk hp hbody

/-- A condition and its body, after the keyword. -/
theorem tracks_branch_rest {k : Token} (hk : Is k .ifWord) (c : Cursor) :
    Tracks (do
      let condition ← expression
      return .branch condition (← block))
      (fun us n => BranchRule (Braced S) (k :: us) n) c := by
  refine (tracks_expression c).bind fun ts e c₁ he => (hblock c₁).bind fun us body c₂ hbody =>
    .pure ?_
  rw [List.append_nil]
  exact .intro hk he hbody

/-- A case test, after the first keyword. -/
theorem tracks_caseTest_rest {k : Token} (hk : Is k .ifWord) (c : Cursor) :
    Tracks (do
      expect .letWord .declaration (some "'let'")
      let name ← identifier
      mark .colon ":"
      let type ← typeName
      if isBuiltinType type then
        fail .enumeration none
          (some ("'if let' tests an enum-typed variable, not '" ++ type ++ "'"))
      else do
        mark .equal "="
        mark .period "."
        let case ← identifier
        let bindings ← optionalFormals
        return .caseTest ⟨.immutable, type, name⟩ case bindings (← block))
      (fun us n => CaseTestRule (Braced S) (k :: us) n) c := by
  refine (readsToken_expect (by decide)).bind fun l _ c₁ hl =>
    readsToken_identifier.bind fun x name c₂ hx => readsToken_mark.bind fun colon _ c₃ hcolon => ?_
  rw [← testedType_bind]
  refine readsToken_testedType.bind fun t type c₄ ht => ?_
  refine readsToken_mark.bind fun equal _ c₅ hequal => readsToken_mark.bind fun dot _ c₆ hdot =>
    readsToken_identifier.bind fun y case c₇ hy => (tracks_optionalFormals c₇).bind
    fun ts vs c₈ hvs => (hblock c₈).bind fun us body c₉ hbody => .pure ?_
  rw [List.append_nil]
  exact .intro hk hl hx hcolon ht.1 ht.2 hequal hdot hy hvs hbody

/-- The token behind `if` decides between the two rules that start with it, and both take `if`. -/
theorem tracks_if {k : Token} (hk : Is k .ifWord) (hspan : Spans c [k] c.next) :
    Tracks (do
      if ← isNext .letWord then caseTestWith block else branchWith block)
      (fun ts n => BranchRule (Braced S) ts n ∨ CaseTestRule (Braced S) ts n) c := by
  have hindex : c.next.index = c.index + 1 := hspan.index
  have hread : ∀ {w}, Reads (expect .ifWord .character w) c () c.next :=
    reads_expect.2 ⟨k, hk, hspan⟩
  refine Tracks.isNext_bind ?_ ?_ ?_
  · split
    · refine Tracks.mono ?_ fun _ _ => .inr
      exact (readsToken_expect (by decide)).bind fun k _ c₁ hk => tracks_caseTest_rest hblock hk c₁
    · refine Tracks.mono ?_ fun _ _ => .inl
      exact (readsToken_expect (by decide)).bind fun k _ c₁ hk => tracks_branch_rest hblock hk c₁
  · intro a c₁ hr
    split at hr
    · have hle := (tracks_caseTest_rest hblock hk _).index_le_of_reads (hread.bind_iff.1 hr)
      omega
    · have hle := (tracks_branch_rest hblock hk _).index_le_of_reads (hread.bind_iff.1 hr)
      omega
  · intro f i hf hblames
    split at hf
    · have hle := (tracks_caseTest_rest hblock hk _).index_le_of_fails (hread.fails_bind_iff.1 hf)
        hblames
      omega
    · have hle := (tracks_branch_rest hblock hk _).index_le_of_fails (hread.fails_bind_iff.1 hf)
        hblames
      omega

end Bodies

theorem tracks_returnStatement (c : Cursor) : Tracks returnStatement Statement c :=
  (readsToken_expect (by decide)).bind fun _ _ _ hk => (tracks_expression _).bind fun _ _ _ he =>
    readsToken_statementEnd.bind fun _ _ _ hstop => .pure (.yield hk he hstop)

theorem tracks_printStatement (c : Cursor) : Tracks printStatement Statement c :=
  (readsToken_expect (by decide)).bind fun _ _ _ hk => (tracks_arguments _).bind fun _ _ _ has =>
    readsToken_statementEnd.bind fun _ _ _ hstop => .pure (.print hk has hstop)

theorem tracks_expressionStatement (c : Cursor) : Tracks expressionStatement Statement c :=
  (tracks_expression c).bind fun _ _ _ he =>
    readsToken_statementEnd.bind fun _ _ _ hstop => .pure (.expression he hstop)

structure StatementsTracked (n : Nat) : Prop where
  statement (c : Cursor) : Tracks (statementWith n) Statement c
  block (c : Cursor) : Tracks (blockWith n) Block c
  statements (c : Cursor) : Tracks (statementsWith n) (Closed (Repeated Statement) .rightBrace) c

namespace StatementsTracked

theorem statement_succ (h : StatementsTracked n) (c : Cursor) :
    Tracks (statementWith (n + 1)) Statement c := by
  rw [statementWith]
  refine Tracks.peek_bind ?_
  split
  · exact (tracks_functionWith h.block c).mono fun _ _ => .function
  · next hsym =>
    obtain ⟨k, hhead, hk⟩ := Option.bind_eq_some_iff.1 hsym
    have hspan : Spans c [k] c.next := Cursor.spans_singleton.2 ⟨hhead, rfl⟩
    refine (tracks_if h.block (Token.isSymbol_iff.2 hk) hspan).mono fun ts n hrule => ?_
    rcases hrule with hrule | hrule
    · exact .branch hrule
    · exact .caseTest hrule
  · refine (tracks_enumDefinition c).mono fun ts n hrule => ?_
    obtain ⟨d, hd, rfl⟩ := hrule
    exact .enumeration hd
  · exact (tracks_declaration c).mono fun _ _ => .declaration
  · exact (tracks_declaration c).mono fun _ _ => .declaration
  · exact tracks_returnStatement c
  · exact tracks_printStatement c
  · exact tracks_expressionStatement c

theorem block_succ (h : StatementsTracked n) (c : Cursor) : Tracks (blockWith (n + 1)) Block c := by
  rw [blockWith]
  refine readsToken_mark.bind fun l _ c₁ hl => (h.statements c₁).mono fun us body hus => ?_
  obtain ⟨hus, hr⟩ := hus
  exact .intro hl hus hr

theorem statements_succ (h : StatementsTracked n) (c : Cursor) :
    Tracks (statementsWith (n + 1)) (Closed (Repeated Statement) .rightBrace) c := by
  rw [statementsWith]
  refine Tracks.take?_bind ?_ ?_
  · intro r c₁ hr
    exact .pure (.nil hr)
  refine Tracks.peek_bind ?_
  split
  · exact .fail (live_closed live_repeated _) (blames_of_fail (by decide))
  refine (h.statement c).bind fun ts e c₁ he => (h.statements c₁).bind fun us body c₂ hus =>
    .pure ?_
  obtain ⟨hus, hr⟩ := hus
  have hbody := Closed.intro (Repeated.cons he hus) hr
  simpa using hbody

end StatementsTracked

theorem statementsTracked (n : Nat) : StatementsTracked n := by
  induction n with
  | zero =>
    have hblames : ∀ {α : Type} {c : Cursor} {f : GrammarFault},
        Fails (fail (α := α) .expression none none) c f → f.Blames c.index :=
      blames_of_fail (by decide)
    exact ⟨fun c => .fail (tracks_expressionStatement c).live hblames,
      fun _ => .fail live_braced hblames, fun _ => .fail (live_closed live_repeated _) hblames⟩
  | succ n ih => exact ⟨ih.statement_succ, ih.block_succ, ih.statements_succ⟩

theorem tracks_program (c : Cursor) : Tracks program Program c := by
  refine .fueled settles_programWith fun n => ?_
  induction n generalizing c with
  | zero => exact .pure .nil
  | succ n ih =>
    rw [programWith]
    refine Tracks.peek_bind ?_
    split
    · exact .pure .nil
    have hstatement : Tracks statement Statement c :=
      .fueled settles_statementWith fun n => (statementsTracked n).statement c
    refine hstatement.bind fun ts e c₁ he => (ih c₁).bind fun us nodes c₂ hnodes => .pure ?_
    rw [List.append_nil]
    exact .cons he hnodes

end Parser

theorem parse_eq_error {ts : List Token} {f : GrammarFault} :
    parse ts = .error f ↔ Parser.Fails Parser.program (Cursor.start ts) f := by
  unfold parse Parser.Fails EStateM.run
  split <;> simp_all

/-- A fault is found neither late nor early: the tokens before the one it is about can be completed
to a program, and with that token they cannot. -/
theorem parse_error_correctPrefix (ts : List Token)
    (hn : ∀ t ∈ ts, t.isOperator = true → 0 ≤ t.precedence) (f : GrammarFault)
    (h : parse ts = .error f) :
    ∃ k, f.Blames k ∧ k ≤ ts.length ∧ (∃ us nodes, parse (ts.take k ++ us) = .ok nodes) ∧
      (k < ts.length → ∀ us nodes, parse (ts.take (k + 1) ++ us) ≠ .ok nodes) := by
  have htracks := Parser.tracks_program (Cursor.start ts)
  have hfails := parse_eq_error.1 h
  obtain ⟨before, hstart, hblames, us, nodes, hus, hprogram⟩ := htracks.fails hfails
  have htake : ts.take before.length = before := (List.prefix_iff_eq_take.1 hstart).symm
  have hindex : (Cursor.start ts).index + before.length = before.length := Nat.zero_add _
  rw [hindex] at hblames
  refine ⟨before.length, hblames, hstart.length_le, ⟨us, nodes, ?_⟩, fun hk vs nodes' hparse => ?_⟩
  · have hbefore : Parser.NonnegPrecedence before := fun t ht => hn t (hstart.subset ht)
    rw [htake]
    exact parse_of_program hprogram (hbefore.append hus)
  · have hagree : Cursor.Agree (before.length + 1) (Cursor.start ts)
        (Cursor.start (ts.take (before.length + 1) ++ vs)) := by
      refine ⟨rfl, ts.take (before.length + 1), ts.drop (before.length + 1), vs,
        (List.take_append_drop _ ts).symm, rfl, ?_⟩
      rw [List.length_take]
      simp only [Cursor.start]
      omega
    obtain ⟨f', hf'⟩ := (htracks.determined hagree).fails hfails hblames (Nat.lt_succ_self _)
    rw [parse_eq_error.2 hf'] at hparse
    cases hparse

/-- The tokens of `if let s: Int = .a`. -/
def builtinTest : List Token :=
  [⟨.symbol .ifWord "if", "if", 0, -1⟩, ⟨.symbol .letWord "let", "let", 3, -1⟩,
    ⟨.symbol .identifier "s", "s", 7, -1⟩, ⟨.symbol .colon ":", ":", 8, -1⟩,
    ⟨.symbol .intWord "Int", "Int", 10, -1⟩, ⟨.symbol .equal "=", "=", 14, -1⟩,
    ⟨.symbol .period ".", ".", 16, -1⟩, ⟨.symbol .identifier "a", "a", 17, -1⟩]

/-- The fault is about the type, which has index 4, and reported at the token behind it. -/
theorem parse_builtinTest :
    ∃ f, parse builtinTest = .error f ∧ f.index = 5 ∧ f.Blames 4 ∧
      (∃ us nodes, parse (builtinTest.take 4 ++ us) = .ok nodes) ∧
      ∀ us nodes, parse (builtinTest.take 5 ++ us) ≠ .ok nodes := by
  refine ⟨_, rfl, rfl, ?_⟩
  obtain ⟨k, hk, -, hcompleted, hrefused⟩ :=
    parse_error_correctPrefix builtinTest (by decide) _ rfl
  obtain rfl : k = 4 := hk.unique (.before ⟨rfl, "Int", rfl, rfl⟩ rfl)
  exact ⟨hk, hcompleted, hrefused (by decide)⟩

end SumLang
