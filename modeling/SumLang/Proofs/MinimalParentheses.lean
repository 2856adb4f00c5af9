import SumLang.Proofs.BalancedText
import SumLang.Proofs.RoundTrip

/-! No parentheses can be left out of the text of an expression: without any one pair that groups an
operand, the text reads as another expression. -/
namespace SumLang

open Grammar Token
open Lowering (lower lowerValues isOperation parenthesized operationText)

/-- The number of operations in an expression, without those in the arguments of calls. -/
def Node.operations : Node → Nat
  | .binary a _ b => a.operations + b.operations + 1
  | _ => 0

namespace Grouping

def regrouped (g : Grouping) : Grouping :=
  (operand g.first).extend g.rest

@[simp] theorem first_regrouped (g : Grouping) : g.regrouped.first = g.first :=
  first_extend _ _

@[simp] theorem rest_regrouped (g : Grouping) : g.regrouped.rest = g.rest :=
  rest_extend _ _

theorem byPrecedence_regrouped (g : Grouping) : g.regrouped.ByPrecedence := by
  have hoperand : (operand g.first).ByPrecedence := trivial
  exact hoperand.extend g.rest

/-- A grouping by precedence is determined by its chain. -/
theorem ByPrecedence.eq_regrouped {g h : Grouping} (hg : g.ByPrecedence)
    (hfirst : g.first = h.first) (hrest : g.rest = h.rest) : g = h.regrouped := by
  rw [regrouped, ← hfirst, ← hrest, hg.extend_first]

/-- The number of operations in the operands and operators of a chain after its first operand. -/
def weight : List Operation → Nat
  | [] => 0
  | o :: ops => o.operand.operations + 1 + weight ops

theorem weight_append (ops rest : List Operation) :
    weight (ops ++ rest) = weight ops + weight rest := by
  induction ops with
  | nil => simp [weight]
  | cons o ops ih =>
    rw [List.cons_append, weight, weight, ih]
    omega

theorem eq_nil_of_weight {ops : List Operation} (h : weight ops = 0) : ops = [] := by
  cases ops with
  | nil => rfl
  | cons o ops => simp [weight] at h

/-- The number of operations does not depend on the way a chain is grouped. -/
theorem operations_node (g : Grouping) :
    g.node.operations = g.first.operations + weight g.rest := by
  induction g with
  | operand n => rfl
  | operation l op p r ihl ihr =>
    simp only [node, Node.operations, ihl, ihr, first, rest, weight_append, weight]
    omega

theorem operations_regrouped (g : Grouping) : g.regrouped.node.operations = g.node.operations := by
  rw [operations_node, operations_node, first_regrouped, rest_regrouped]

theorem append_inj_of_weight {us us' vs vs' : List Operation} (h : us ++ vs = us' ++ vs')
    (hweight : weight us = weight us') : us = us' ∧ vs = vs' := by
  have hnil {ops rest : List Operation} (h : weight (ops ++ rest) = weight ops) : rest = [] := by
    rw [weight_append] at h
    exact eq_nil_of_weight (by omega)
  rcases List.append_eq_append_iff.1 h with ⟨zs, rfl, rfl⟩ | ⟨zs, rfl, rfl⟩
  · simp [hnil hweight.symm]
  · simp [hnil hweight]

/-- If regrouping a chain makes its parts `l` and `r` the two operands of an operation, then each
was regrouped on its own, and the operator between them binds as it has to. The parts can be told by
the number of their operations. -/
theorem regrouped_operation {l r : Grouping} {op op' : String} {p : Int} {a b : Node}
    (h : (operation l op p r).regrouped.node = .binary a op' b)
    (ha : l.node.operations = a.operations) :
    l.regrouped.node = a ∧ r.regrouped.node = b ∧ (∀ q ∈ l.regrouped.root?, p ≤ q) ∧
      ∀ q ∈ r.regrouped.root?, p < q := by
  have hfirst := (operation l op p r).first_regrouped
  have hrest := (operation l op p r).rest_regrouped
  have hg := (operation l op p r).byPrecedence_regrouped
  cases hgroup : (operation l op p r).regrouped with
  | operand n => simp [hgroup, rest] at hrest
  | operation l' op'' p' r' =>
    rw [hgroup] at h hfirst hrest hg
    obtain ⟨hl, hr, hbl, hbr⟩ := hg
    obtain ⟨rfl, -, rfl⟩ := Node.binary.inj h
    change l'.first = l.first at hfirst
    have hweight : weight l'.rest = weight l.rest := by
      rw [operations_node, operations_node, hfirst] at ha
      omega
    obtain ⟨hlrest, htail⟩ := append_inj_of_weight hrest hweight
    obtain ⟨hop, hrrest⟩ := List.cons.inj htail
    obtain ⟨-, rfl, hrfirst⟩ := Operation.mk.inj hop
    obtain rfl := hbl.eq_regrouped hfirst hlrest
    obtain rfl := hbr.eq_regrouped hrfirst hrrest
    exact ⟨rfl, rfl, hl, hr⟩

end Grouping

/-- An operation is read with its operands grouped anew, unless they are in parentheses. -/
theorem Rendered.regrouped {left right op : String} {a b : Node} {l r : Grouping} {c : Char}
    {p : Int} (ha : Rendered left a l) (hb : Rendered right b r) (hop : op = c.toString)
    (hc : (c, .operator, p) ∈ marks) :
    Rendered (left ++ " " ++ op ++ " " ++ right) (Grouping.operation l op p r).regrouped.node
      (Grouping.operation l op p r).regrouped where
  node := rfl
  byPrecedence := Grouping.byPrecedence_regrouped _
  scans := (ha.scans_operation hb hop hc).mono fun ts hts => by
    rwa [Chain, Grouping.first_regrouped, Grouping.rest_regrouped]

/-- The text reads as another expression, which has as many operations. -/
def Misread (text : String) (e : Node) : Prop :=
  ∃ e' g, Rendered text e' g ∧ e' ≠ e ∧ e'.operations = e.operations

/-- An operation is misread if an operand is, or if an operand that needs parentheses has none. -/
theorem misread_operation {left right op : String} {a a' b b' : Node} {l r : Grouping} {c : Char}
    {p : Int} (ha : Rendered left a' l) (hb : Rendered right b' r) (hop : op = c.toString)
    (hc : (c, .operator, p) ∈ marks) (hla : a'.operations = a.operations)
    (hlb : b'.operations = b.operations)
    (h : a' = a → b' = b → l.root?.any (· < p) = true ∨ r.root?.any (· ≤ p) = true) :
    Misread (left ++ " " ++ op ++ " " ++ right) (.binary a op b) := by
  have hl : l.regrouped = l := ha.byPrecedence.extend_first
  have hr : r.regrouped = r := hb.byPrecedence.extend_first
  refine ⟨_, _, ha.regrouped hb hop hc, fun heq => ?_, ?_⟩
  · obtain ⟨hnode, hnode', hle, hlt⟩ := Grouping.regrouped_operation heq (by rw [ha.node, hla])
    rw [hl, ha.node] at hnode
    rw [hr, hb.node] at hnode'
    rw [hl] at hle
    rw [hr] at hlt
    simp only [Option.any_eq_true, decide_eq_true_eq] at h
    rcases h hnode hnode' with ⟨q, hq, hqp⟩ | ⟨q, hq, hqp⟩
    · exact Int.not_lt.2 (hle q hq) hqp
    · exact Int.not_le.2 (hlt q hq) hqp
  · rw [Grouping.operations_regrouped, Grouping.node, Node.operations, Node.operations, ha.node,
      hb.node, hla, hlb]

/-- The text of an expression from which no pair of parentheses can be left out. -/
structure Minimal (text : String) (e : Node) : Prop where
  balanced : Balanced text.toList
  misread : ∀ u v w, GroupingPair text.toList u v w → Misread (String.ofList (u ++ v ++ w)) e

namespace Minimal

theorem lexeme {text : String} {e : Node} {a : Content} {p : Int} (h : Spells text.toList a p)
    (ha : ∀ s x, a = .symbol s x → s = .identifier) : Minimal text e where
  balanced := h.balanced ha
  misread _ _ _ hpair := absurd hpair (h.not_groupingPair ha)

/-- Around an operand parentheses stand only where it is read differently without them. -/
theorem misread_operand {text : String} {a : Node} {l : Grouping} {q : Int → Bool}
    {u v w : List Char} (h : Minimal text a) (ha : Rendered text a l)
    (hroot : isOperation q a = l.root?.any q)
    (hpair : GroupingPair (parenthesized (isOperation q a) text).toList u v w) :
    ∃ a' l', Rendered (String.ofList (u ++ v ++ w)) a' l' ∧ a'.operations = a.operations ∧
      (a' = a → l'.root?.any q = true) := by
  cases hneeded : isOperation q a with
  | false =>
    rw [hneeded] at hpair
    obtain ⟨a', l', hl', hne, hops⟩ := h.misread u v w hpair
    exact ⟨a', l', hl', hops, fun heq => absurd heq hne⟩
  | true =>
    have htext : (parenthesized true text).toList = '(' :: (text.toList ++ [')']) := by
      simp [parenthesized]
    rw [hneeded, htext] at hpair
    rcases hpair.group_cases h.balanced with ⟨rfl, rfl, rfl⟩ | ⟨u, w, hinner, rfl, rfl⟩
    · refine ⟨a, l, ?_, rfl, fun _ => hroot ▸ hneeded⟩
      simpa using ha
    · obtain ⟨a', l', hl', hne, hops⟩ := h.misread u v w hinner
      refine ⟨a', .operand a', ?_, hops, fun heq => absurd heq hne⟩
      have hless : String.ofList ('(' :: u ++ v ++ (w ++ [')'])) =
          "(" ++ String.ofList (u ++ v ++ w) ++ ")" := by
        simp [← String.toList_inj]
      rw [hless]
      exact hl'.group

theorem balanced_operand {text : String} {a : Node} (h : Minimal text a) (needed : Bool) :
    Balanced (parenthesized needed text).toList := by
  cases needed with
  | false => exact h.balanced
  | true => simpa [parenthesized] using Balanced.group h.balanced .nil

theorem operation {left right op : String} {a b : Node} {l r : Grouping} {c : Char} {p : Int}
    (hmina : Minimal left a) (hminb : Minimal right b) (ha : Rendered left a l)
    (hb : Rendered right b r) (hl : ∀ q, isOperation q a = l.root?.any q)
    (hr : ∀ q, isOperation q b = r.root?.any q) (hop : op = c.toString)
    (hc : (c, .operator, p) ∈ marks) :
    Minimal (operationText p a left op b right) (.binary a op b) := by
  have htext : (operationText p a left op b right).toList =
      (parenthesized (isOperation (· < p) a) left).toList ++
        ([' ', c, ' '] ++ (parenthesized (isOperation (· ≤ p) b) right).toList) := by
    simp [operationText, hop]
  have hmark : ∀ d ∈ [' ', c, ' '], d ≠ '"' ∧ d ≠ '(' ∧ d ≠ ')' := by
    have hall : ∀ m ∈ marks, m.2.1 = .operator → m.1 ≠ '"' ∧ m.1 ≠ '(' ∧ m.1 ≠ ')' := by decide
    simpa using hall _ hc rfl
  have hmiddle := Balanced.of_forall_mem hmark
  have hleft := hmina.balanced_operand (isOperation (· < p) a)
  refine ⟨?_, fun u v w hpair => ?_⟩
  · rw [htext]
    exact hleft.append (hmiddle.append (hminb.balanced_operand _))
  rw [htext] at hpair
  rcases hpair.append_cases hleft with ⟨w, hpairl, rfl⟩ | ⟨u, hbehind, rfl⟩
  · obtain ⟨a', l', hl', hops, hneeded⟩ := hmina.misread_operand ha (hl _) hpairl
    obtain ⟨r', hr', -⟩ := hb.operand (isOperation (· ≤ p) b)
    have hless := misread_operation hl' hr' hop hc hops rfl fun heq _ => .inl (hneeded heq)
    convert hless using 1
    simp [← String.toList_inj, hop]
  rcases hbehind.append_cases hmiddle with ⟨w, hpairm, -⟩ | ⟨u, hpairr, rfl⟩
  · exact absurd rfl (hmark '(' hpairm.open_mem).2.1
  · obtain ⟨b', r', hr', hops, hneeded⟩ := hminb.misread_operand hb (hr _) hpairr
    obtain ⟨l', hl', -⟩ := ha.operand (isOperation (· < p) a)
    have hless := misread_operation hl' hr' hop hc rfl hops fun _ heq => .inr (hneeded heq)
    convert hless using 1
    simp [← String.toList_inj, hop]

/-- Without a pair of parentheses in one of them, arguments are read as other arguments. -/
theorem arguments {texts : List String} {args : List Node}
    (h : List.Forall₂ (fun text a => Scans text.toList (Expression · a) ∧ Minimal text a)
      texts args) :
    Balanced (", ".intercalate texts).toList ∧
      ∀ u v w, GroupingPair (", ".intercalate texts).toList u v w →
        ∃ texts' args', String.ofList (u ++ v ++ w) = ", ".intercalate texts' ∧ texts' ≠ [] ∧
          List.Forall₂ (fun text a => Scans text.toList (Expression · a)) texts' args' ∧
          args' ≠ args := by
  induction h with
  | nil =>
    rw [String.intercalate_nil]
    exact ⟨.nil, fun u v w hpair => by simpa using hpair.open_mem⟩
  | @cons text a texts args hfirst hrest ih =>
    obtain ⟨hscans, hmin⟩ := hfirst
    have hscansRest := hrest.imp fun _ _ h => h.1
    by_cases hne : texts = []
    · subst hne
      rw [String.intercalate_singleton]
      refine ⟨hmin.balanced, fun u v w hpair => ?_⟩
      obtain ⟨a', g, ha', hne, -⟩ := hmin.misread u v w hpair
      exact ⟨[_], a' :: args, (String.intercalate_singleton).symm, by simp,
        .cons ha'.expression hscansRest, by simpa using hne⟩
    obtain ⟨hbalanced, hmisread⟩ := ih
    have hcomma : Balanced [',', ' '] := .of_forall_mem (by simp)
    have htext : (", ".intercalate (text :: texts)).toList =
        text.toList ++ ([',', ' '] ++ (", ".intercalate texts).toList) := by
      simp [String.intercalate_cons_of_ne_nil hne]
    rw [htext]
    refine ⟨hmin.balanced.append (hcomma.append hbalanced), fun u v w hpair => ?_⟩
    rcases hpair.append_cases hmin.balanced with ⟨w, hfirst, rfl⟩ | ⟨u, hbehind, rfl⟩
    · obtain ⟨a', g, ha', hne', -⟩ := hmin.misread u v w hfirst
      refine ⟨_ :: texts, a' :: args, ?_, by simp, .cons ha'.expression hscansRest,
        by simpa using hne'⟩
      simp [String.intercalate_cons_of_ne_nil hne, ← String.toList_inj]
    rcases hbehind.append_cases hcomma with ⟨w, hpairm, -⟩ | ⟨u, hpairr, rfl⟩
    · simpa using hpairm.open_mem
    · obtain ⟨texts', args', htexts', hne', hscans', hargs'⟩ := hmisread u v w hpairr
      refine ⟨text :: texts', a :: args', ?_, by simp, .cons hscans hscans', by simpa using hargs'⟩
      simp [String.intercalate_cons_of_ne_nil hne', ← htexts', ← String.toList_inj]

theorem call {f : String} {texts : List String} {args : List Node}
    (hf : IsIdentifier f)
    (h : List.Forall₂ (fun text a => Scans text.toList (Expression · a) ∧ Minimal text a)
      texts args) :
    Minimal (f ++ "(" ++ ", ".intercalate texts ++ ")") (.call f args) := by
  have hname : ∀ s x, Content.symbol .identifier f = .symbol s x → s = .identifier := by
    rintro s x ⟨⟩
    rfl
  obtain ⟨hbalanced, hmisread⟩ := arguments h
  have htext : (f ++ "(" ++ ", ".intercalate texts ++ ")").toList =
      f.toList ++ '(' :: ((", ".intercalate texts).toList ++ [')']) := by
    simp
  refine ⟨?_, fun u v w hpair => ?_⟩
  · rw [htext]
    exact (hf.balanced hname).append (.group hbalanced .nil)
  rw [htext] at hpair
  rcases hpair.append_cases (hf.balanced hname) with ⟨w, hword, -⟩ | ⟨u, hbehind, rfl⟩
  · exact absurd hword (hf.not_groupingPair hname)
  rcases hbehind.group_cases hbalanced with ⟨rfl, -, -⟩ | ⟨u, w, hinner, rfl, rfl⟩
  · -- The parentheses of the call itself stand behind its name.
    obtain ⟨c, cs, hcs, -⟩ := IsIdentifier.exists_word hf
    have hlast : f.toList.getLast? ≠ none := by simp [hcs]
    obtain ⟨d, hd⟩ := Option.ne_none_iff_exists'.1 hlast
    have hpart := IsIdentifier.isWordPart_of_mem hf (List.mem_of_getLast? hd)
    have hnot := hpair.noCall d (by simp [hd])
    simp [hpart] at hnot
  · obtain ⟨texts', args', htexts', -, hscans', hargs'⟩ := hmisread u v w hinner
    refine ⟨.call f args', .operand (.call f args'), ?_, by simpa using hargs', rfl⟩
    have hless : String.ofList (f.toList ++ '(' :: u ++ v ++ (w ++ [')'])) =
        f ++ "(" ++ ", ".intercalate texts' ++ ")" := by
      simp [← htexts', ← String.toList_inj]
    rw [hless]
    exact .call hf hscans'

end Minimal

/-- The text of a readable expression is read as the expression. -/
theorem Readable.rendered {s : Settings} {e : Node} {text : String} (h : Readable e)
    (hlower : lower s e = pure (some text)) :
    ∃ g, Rendered text e g ∧ ∀ q, isOperation q e = g.root?.any q := by
  obtain ⟨text', g, hlower', hrendered, hroot⟩ := h.hasText s
  rw [hlower'] at hlower
  obtain rfl := text_of_pure hlower
  exact ⟨g, hrendered, hroot⟩

theorem Readable.minimal (s : Settings) {e : Node} (h : Readable e) :
    ∃ text, lower s e = pure (some text) ∧ Minimal text e := by
  induction h with
  | @integer n hn hlen =>
    obtain ⟨k, rfl⟩ := Int.eq_ofNat_of_zero_le hn
    exact ⟨_, lower_integer hlen, .lexeme (spells_integer k) (by simp)⟩
  | float htext hwhole hfraction hw hf hx =>
    exact ⟨_, by rw [lower], .lexeme (spells_float htext hwhole hfraction hw hf hx) (by simp)⟩
  | string => exact ⟨_, by rw [lower], .lexeme (spells_string _) (by simp)⟩
  | boolean => exact ⟨_, by rw [lower], .lexeme (spells_boolean _) (by simp)⟩
  | name hx => exact ⟨_, by rw [lower], .lexeme hx (by rintro s x ⟨⟩; rfl)⟩
  | @call f args hf hargs ih =>
    have htexts : ∀ a ∈ args, ∃ text, lower s a = pure (some text) ∧
        Scans text.toList (Expression · a) ∧ Minimal text a := by
      intro a ha
      obtain ⟨text, hlower, hmin⟩ := ih a ha
      obtain ⟨g, hrendered, -⟩ := (hargs a ha).rendered hlower
      exact ⟨text, hlower, hrendered.expression, hmin⟩
    obtain ⟨texts, hlowers, hmin⟩ := exists_arguments htexts
    exact ⟨_, lower_call hlowers, .call hf hmin⟩
  | binary hop hea heb iha ihb =>
    obtain ⟨c, p, hchar, hc, hp⟩ := exists_operator hop
    obtain ⟨left, hleft, hmina⟩ := iha
    obtain ⟨right, hright, hminb⟩ := ihb
    obtain ⟨l, ha, hl⟩ := hea.rendered hleft
    obtain ⟨r, hb, hr⟩ := heb.rendered hright
    exact ⟨_, lower_binary hp hleft hright, hmina.operation hminb ha hb hl hr hchar hc⟩

/-- The text of an expression reads as the expression. Whichever grouping parentheses are taken out
of it, what is left is the text of another expression. -/
theorem parseSource_without_groupingPair (s : Settings) (e : Node) (h : Readable e) :
    ∃ text, lower s e = pure (some text) ∧ parseSource (text ++ ";") = .ok [e] ∧
      ∀ u v w, GroupingPair text.toList u v w →
        ∃ e', parseSource (String.ofList (u ++ v ++ w) ++ ";") = .ok [e'] ∧ e' ≠ e := by
  obtain ⟨text, hlower, hmin⟩ := h.minimal s
  obtain ⟨g, hrendered, -⟩ := h.rendered hlower
  refine ⟨text, hlower, parseSource_of_scans hrendered.expression, fun u v w hpair => ?_⟩
  obtain ⟨e', g, hrendered, hne, -⟩ := hmin.misread u v w hpair
  exact ⟨e', parseSource_of_scans hrendered.expression, hne⟩

/-- In `f("(", a - (b - c))` the pair behind the minus groups, inside of a call. The parenthesis
before it is part of a string. -/
theorem parseSource_without_groupingPair_call :
    parseSource "f(\"(\", a - (b - c));" = .ok [.call "f" [.string "(", .binary (.name "a") "-"
        (.binary (.name "b") "-" (.name "c"))]] ∧
      ∃ e', parseSource "f(\"(\", a - b - c);" = .ok [e'] ∧ e' ≠ .call "f" [.string "(",
        .binary (.name "a") "-" (.binary (.name "b") "-" (.name "c"))] := by
  have hname (x : String) : lower {} (.name x) = pure (some x) := by rw [lower]
  have hstring : lower {} (.string "(") = pure (some "\"(\"") := by rw [lower]; rfl
  have hminus : lower {} (.binary (.name "a") "-" (.binary (.name "b") "-" (.name "c"))) =
      pure (some "a - (b - c)") :=
    lower_binary (p := 20) rfl (hname "a") (lower_binary (p := 20) rfl (hname "b") (hname "c"))
  have hcall : lower {} (.call "f" [.string "(", .binary (.name "a") "-" (.binary (.name "b") "-"
      (.name "c"))]) = pure (some "f(\"(\", a - (b - c))") :=
    @lower_call {} "f" _ ["\"(\"", "a - (b - c)"] (by simp [lowerValues, hstring, hminus])
  have hreadable : Readable (.call "f" [.string "(", .binary (.name "a") "-" (.binary (.name "b")
      "-" (.name "c"))]) := by
    refine .call (@Spells.word 'f' [] (by decide) (by simp)) ?_
    simp only [List.mem_cons, List.not_mem_nil, or_false, forall_eq_or_imp, forall_eq]
    refine ⟨.string, .binary (by decide) (.name ?_) (.binary (by decide) (.name ?_) (.name ?_))⟩
    · exact @Spells.word 'a' [] (by decide) (by simp)
    · exact @Spells.word 'b' [] (by decide) (by simp)
    · exact @Spells.word 'c' [] (by decide) (by simp)
  obtain ⟨text, hlower, hread, hless⟩ := parseSource_without_groupingPair {} _ hreadable
  rw [hcall] at hlower
  obtain rfl := text_of_pure hlower
  refine ⟨hread, hless "f(\"(\", a - ".toList "b - c".toList ")".toList ⟨by decide, ?_, ?_, ?_⟩⟩
  · have hquoted : Quoted ['('] ['('] := .plain (by decide) (by decide) (by decide) .nil
    refine .plain (by decide) (.plain (by decide) (.string hquoted ?_))
    exact .plain (by decide) (.plain (by decide) (.plain (by decide) (.plain (by decide)
      (.plain (by decide) (.plain (by decide) .nil)))))
  · exact .of_forall_mem (by simp)
  · rintro c ⟨⟩
    rfl

end SumLang
