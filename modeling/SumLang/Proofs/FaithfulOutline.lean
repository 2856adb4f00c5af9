import SumLang.Proofs.OutlineText

/-! The outline of a program tells the program. Its lines are read back from the top: the first word
of a line tells the kind of the statement, the rest of the line what the statement says, and the
depth of the lines that follow where its body ends. -/
namespace SumLang

open Token (IsIdentifier isWordPart)

/-- What the first word of an outlined node tells. -/
inductive Heading where
  | program
  | function
  | prototype
  | declare
  | assign
  | yield
  | print
  | branch
  | caseTest
  | enumeration
  | enumCase
  | expression

def Heading.keyword : Heading → String
  | program => "Program"
  | function => "Function"
  | prototype => "Prototype"
  | declare => "Variable"
  | assign => "Assign"
  | yield => "Return"
  | print => "Print"
  | branch => "If"
  | caseTest => "IfLet"
  | enumeration => "Enum"
  | enumCase => "Case"
  | expression => "Expr"

theorem Heading.keyword_injective {k k' : Heading} (h : k.keyword = k'.keyword) : k = k' := by
  revert h
  cases k <;> cases k' <;> simp [keyword]

def Node.heading : Node → Heading
  | program _ => .program
  | function _ _ => .function
  | prototype _ => .prototype
  | declare _ => .declare
  | assign _ _ => .assign
  | yield _ => .yield
  | print _ => .print
  | branch _ _ => .branch
  | caseTest _ _ _ _ => .caseTest
  | enumeration _ => .enumeration
  | enumCase _ => .enumCase
  | _ => .expression

/-- The statements of each kind that an outline shows in full. -/
inductive Outlined : Heading → Node → Prop where
  | function {p : Prototype} {body : List Node} : WellFormed.Prototype p →
    (∀ n ∈ body, Outlined n.heading n) → Outlined .function (.function p body)
  | branch {condition : Node} {body : List Node} : Shown condition →
    (∀ n ∈ body, Outlined n.heading n) → Outlined .branch (.branch condition body)
  | caseTest {v : Variable} {case : String} {bindings : List Variable} {body : List Node} :
    WellFormed.Formal v → IsIdentifier case → (∀ b ∈ bindings, WellFormed.Formal b) →
    (∀ n ∈ body, Outlined n.heading n) → Outlined .caseTest (.caseTest v case bindings body)
  | enumeration {d : EnumDefinition} : WellFormed.Enumeration d →
    Outlined .enumeration (.enumeration d)
  | declare {v : Variable} : WellFormed.Typed v → Outlined .declare (.declare v)
  | assign {v : Variable} {value : Node} : WellFormed.Typed v → Shown value →
    Outlined .assign (.assign v value)
  | yield {e : Node} : Shown e → Outlined .yield (.yield e)
  | print {args : List Node} : (∀ a ∈ args, Shown a) → Outlined .print (.print args)
  | expression {e : Node} : Shown e → Outlined .expression e

namespace Node

/-- What the first line of a node says behind its keyword. -/
def details : Node → String
  | program _ => ""
  | function p _ => ": " ++ p.outline
  | prototype p => ": " ++ p.outline
  | declare v => ": " ++ v.declaration
  | assign v value => ": " ++ v.declaration ++ " = " ++ value.inline
  | yield value => " " ++ value.inline
  | print values => "(" ++ ", ".intercalate (inlineAll values) ++ ")"
  | branch condition _ => " " ++ condition.inline
  | caseTest v c bindings _ =>
    " " ++ v.outline ++ " = ." ++ c ++ "(" ++ Variable.outlines bindings ++ ")"
  | enumeration d => ": " ++ d.name
  | enumCase c => ": " ++ c.name ++ "(" ++ Variable.outlines c.values ++ ")"
  | n => ": " ++ n.inline

/-- The lines of a node below its first line, which stand at a depth. -/
def lowerLines (depth : Nat) : Node → List String
  | program body => outlineBlock depth body
  | function _ body => outlineBlock depth body
  | branch _ body => outlineBlock depth body
  | caseTest _ _ _ body => outlineBlock depth body
  | enumeration d => d.cases.map fun c => outlineLine depth c.outline
  | _ => []

theorem outlineLines_eq (depth : Nat) (n : Node) :
    n.outlineLines depth =
      outlineLine depth (n.heading.keyword ++ n.details) :: n.lowerLines (depth + 1) := by
  cases n <;>
    simp only [outlineLines, heading, Heading.keyword, details, lowerLines, EnumCase.outline,
      ← String.append_assoc] <;>
    rfl

end Node

section Lines

variable {depth k : Nat} {r : List Char} {n n' : Node}

def lineText (line : String) : List Char := '\n' :: line.toList

def Node.linesText (depth : Nat) (n : Node) : List Char :=
  (n.outlineLines depth).flatMap lineText

def indentation (depth : Nat) : List Char := List.replicate (2 * depth) ' '

/-- The text ends, or a line of at most the given depth follows. -/
def Shallow (depth : Nat) (r : List Char) : Prop :=
  r = [] ∨ ∃ k ≤ depth, ∃ c cs, c ≠ ' ' ∧ r = '\n' :: (indentation k ++ c :: cs)

theorem Shallow.stops (h : Shallow depth r) : Stops r := by
  rcases h with rfl | ⟨_, _, _, _, _, rfl⟩
  · simp [Stops]
  · exact stops_cons (by simp)

theorem Shallow.succ (h : Shallow depth r) : Shallow (depth + 1) r :=
  h.imp_right fun ⟨k, hk, hline⟩ => ⟨k, Nat.le_succ_of_le hk, hline⟩

theorem lineText_outlineLine (depth : Nat) (text : String) :
    lineText (Node.outlineLine depth text) = '\n' :: (indentation depth ++ text.toList) := by
  simp [lineText, Node.outlineLine, indentation]

/-- A line stops a text of its own depth, but does not end a block above it. -/
theorem shallow_line {text : String} {c : Char} {cs : List Char} (htext : text.toList = c :: cs)
    (hc : c ≠ ' ') (r : List Char) :
    Shallow (depth + 1) (lineText (Node.outlineLine (depth + 1) text) ++ r) ∧
      ¬Shallow depth (lineText (Node.outlineLine (depth + 1) text) ++ r) := by
  have hline : lineText (Node.outlineLine (depth + 1) text) ++ r =
      '\n' :: (indentation (depth + 1) ++ c :: (cs ++ r)) := by
    rw [lineText_outlineLine, htext, List.cons_append, List.append_assoc, List.cons_append]
  rw [hline]
  refine ⟨.inr ⟨depth + 1, le_rfl, c, _, hc, rfl⟩, ?_⟩
  rintro (hnil | ⟨k, hk, d, ds, hd, heq⟩)
  · cases hnil
  · have hblank (k : Nat) : ∀ c ∈ indentation k, (c == ' ') = true := by
      intro c hc
      rw [List.eq_of_mem_replicate hc]
      rfl
    obtain ⟨hindent, -⟩ := eq_of_append_of_forall (hblank _) (hblank _)
      (forall_mem_head?_cons (by simp [hc]) _) (forall_mem_head?_cons (by simp [hd]) _)
      (List.cons.inj heq).2
    have hlength := congrArg List.length hindent
    simp only [indentation, List.length_replicate] at hlength
    omega

theorem flatMap_lineText_stops (lines : List String) (hr : Shallow depth r) :
    Stops (lines.flatMap lineText ++ r) := by
  cases lines with
  | nil => exact hr.stops
  | cons => exact stops_of_head? (c := '\n') rfl (by simp)

theorem linesText_eq (depth : Nat) (n : Node) :
    n.linesText depth = '\n' :: (indentation depth ++ (n.heading.keyword.toList ++
      (n.details.toList ++ (n.lowerLines (depth + 1)).flatMap lineText))) := by
  rw [Node.linesText, Node.outlineLines_eq, List.flatMap_cons, lineText_outlineLine]
  simp

theorem flatMap_outlineBlock (depth : Nat) (ns : List Node) :
    (Node.outlineBlock depth ns).flatMap lineText = ns.flatMap (Node.linesText depth) := by
  induction ns with
  | nil => rfl
  | cons n ns ih =>
    rw [Node.outlineBlock, List.flatMap_append, ih, List.flatMap_cons, Node.linesText]

/-- The outline of a program is its lines, one behind the other. -/
theorem lineText_outline (nodes : List Node) :
    lineText (Node.program nodes).outline =
      lineText "Program" ++ nodes.flatMap (Node.linesText 1) := by
  have hlines := toList_intercalate_cons "\n" id (Node.outlineLine 0 "Program")
    (Node.outlineBlock 1 nodes)
  rw [List.map_id] at hlines
  rw [← flatMap_outlineBlock, lineText, Node.outline, Node.outlineLines, hlines]
  rfl

end Lines

section Details

variable {k : Heading} {n n' : Node} {v w : Variable} {p p' : Prototype} {r r' : List Char}

theorem Shown.heading_eq (h : Shown n) : n.heading = .expression ∧ n.details = ": " ++ n.inline ∧
    ∀ depth, n.lowerLines depth = [] := by
  cases h <;> exact ⟨rfl, rfl, fun _ => rfl⟩

theorem Outlined.heading_eq (h : Outlined k n) : n.heading = k := by
  cases h with
  | expression he => exact he.heading_eq.1
  | _ => rfl

theorem Heading.isAlpha_keyword (k : Heading) : ∀ c ∈ k.keyword.toList, c.isAlpha = true := by
  cases k <;> exact List.all_eq_true.1 (by decide)

/-- What follows the first word of a line is no part of it. -/
theorem Outlined.isAlpha_head?_details (h : Outlined k n) (t : List Char) :
    ∀ c ∈ (n.details.toList ++ t).head?, c.isAlpha = false := by
  cases h with
  | expression he =>
    rw [he.heading_eq.2.1]
    simp
  | _ => simp [Node.details]

theorem Variable.toList_declaration (v : Variable) :
    v.declaration.toList = (match v.mutability with
      | .immutable => ['l', 'e', 't', ' ']
      | .mutable => ['v', 'a', 'r', ' ']) ++ v.outline.toList := by
  unfold Variable.declaration
  cases v.mutability <;> simp

theorem declaration_inj (hv : WellFormed.Typed v) (hw : WellFormed.Typed w) (hr : Stops r)
    (hr' : Stops r') (h : v.declaration.toList ++ r = w.declaration.toList ++ r') :
    v = w ∧ r = r' := by
  rw [Variable.toList_declaration, Variable.toList_declaration] at h
  cases v with | mk m type name =>
  cases w with | mk m' type' name' =>
  have hm : m = m' := by
    cases m <;> cases m' <;> simp at h ⊢
  subst hm
  rw [List.append_assoc, List.append_assoc] at h
  obtain ⟨hname, htype, hrest⟩ := Variable.outline_inj hv hw hr hr' (List.append_cancel_left h)
  cases hname
  cases htype
  exact ⟨rfl, hrest⟩

theorem Prototype.toList_outline (p : Prototype) :
    p.outline.toList = p.name.toList ++ '(' :: ((Variable.outlines p.formals).toList ++
      ')' :: (" -> ".toList ++ p.result.toList)) := by
  simp [Prototype.outline]

theorem prototype_inj (hp : WellFormed.Prototype p) (hp' : WellFormed.Prototype p') (hr : Stops r)
    (hr' : Stops r') (h : p.outline.toList ++ r = p'.outline.toList ++ r') : p = p' ∧ r = r' := by
  simp only [Prototype.toList_outline, List.append_assoc, List.cons_append] at h
  obtain ⟨hname, hlist⟩ := (isWord_of_isIdentifier hp.name).inj (isWord_of_isIdentifier hp'.name)
    (forall_mem_head?_cons rfl _) (forall_mem_head?_cons rfl _) h
  obtain ⟨hformals, hresult⟩ := outlines_inj hp.formals hp'.formals (List.cons.inj hlist).2
  obtain ⟨hresult, hrest⟩ := (isWord_of_isTypeName hp.result).inj (isWord_of_isTypeName hp'.result)
    hr.isWordPart_eq_false hr'.isWordPart_eq_false (List.append_cancel_left hresult)
  cases p
  cases p'
  cases hname
  cases hformals
  cases hresult
  exact ⟨rfl, hrest⟩

theorem caseTest_inj {case case' : String} {bs bs' : List Variable} (hv : WellFormed.Formal v)
    (hw : WellFormed.Formal w) (hcase : IsIdentifier case) (hcase' : IsIdentifier case')
    (hbs : ∀ b ∈ bs, WellFormed.Formal b) (hbs' : ∀ b ∈ bs', WellFormed.Formal b)
    (h : v.outline.toList ++ (" = .".toList ++ (case.toList ++
        '(' :: ((Variable.outlines bs).toList ++ ')' :: r))) =
      w.outline.toList ++ (" = .".toList ++ (case'.toList ++
        '(' :: ((Variable.outlines bs').toList ++ ')' :: r')))) :
    v = w ∧ case = case' ∧ bs = bs' ∧ r = r' := by
  have hblank (t : List Char) : Stops (" = .".toList ++ t) :=
    stops_of_head? (c := ' ') rfl (by simp)
  obtain ⟨hvariable, hname⟩ := toldApart_formal hv hw _ _ (hblank _) (hblank _) h
  obtain ⟨hname, hlist⟩ := (isWord_of_isIdentifier hcase).inj (isWord_of_isIdentifier hcase')
    (forall_mem_head?_cons rfl _) (forall_mem_head?_cons rfl _) (List.append_cancel_left hname)
  obtain ⟨hbindings, hrest⟩ := outlines_inj hbs hbs' (List.cons.inj hlist).2
  exact ⟨hvariable, hname, hbindings, hrest⟩

theorem toldApart_case {enum : String} {c c' : EnumCase} (hc : WellFormed.Case enum c)
    (hc' : WellFormed.Case enum c') (depth : Nat) :
    ToldApart (Shallow depth) (fun c => lineText (Node.outlineLine depth c.outline)) c c' := by
  intro r r' hr hr' h
  have htext (c : EnumCase) : c.outline.toList = "Case: ".toList ++ (c.name.toList ++
      '(' :: ((Variable.outlines c.values).toList ++ [')'])) := by
    simp [EnumCase.outline]
  simp only [lineText_outlineLine, htext, List.append_assoc, List.cons_append] at h
  have h := List.append_cancel_left (List.append_cancel_left (List.cons.inj h).2)
  obtain ⟨hname, hlist⟩ := (isWord_of_isIdentifier hc.name).inj (isWord_of_isIdentifier hc'.name)
    (forall_mem_head?_cons rfl _) (forall_mem_head?_cons rfl _) h
  obtain ⟨hvalues, hrest⟩ := outlines_inj hc.values hc'.values (List.cons.inj hlist).2
  have henum := hc.enum.trans hc'.enum.symm
  cases c
  cases c'
  cases hname
  cases hvalues
  cases henum
  exact ⟨rfl, hrest⟩

end Details

section Statements

variable {k k' : Heading} {n n' : Node} {depth : Nat} {body body' : List Node} {r r' : List Char}

theorem Heading.exists_cons (k : Heading) (t : List Char) :
    ∃ c cs, k.keyword.toList ++ t = c :: cs ∧ c ≠ ' ' := by
  cases k <;> simp [Heading.keyword]

theorem shallow_linesText (n : Node) (depth : Nat) (r : List Char) :
    Shallow (depth + 1) (n.linesText (depth + 1) ++ r) ∧
      ¬Shallow depth (n.linesText (depth + 1) ++ r) := by
  obtain ⟨c, cs, htext, hc⟩ := n.heading.exists_cons n.details.toList
  rw [Node.linesText, Node.outlineLines_eq, List.flatMap_cons, List.append_assoc]
  exact shallow_line (String.toList_append.trans htext) hc _

/-- The first word of a line tells the kind of the statement. -/
theorem Outlined.heading_inj (h : Outlined k n) (h' : Outlined k' n')
    (heq : n.linesText depth ++ r = n'.linesText depth ++ r') :
    k = k' ∧ n.details.toList ++ ((n.lowerLines (depth + 1)).flatMap lineText ++ r) =
      n'.details.toList ++ ((n'.lowerLines (depth + 1)).flatMap lineText ++ r') := by
  simp only [linesText_eq, List.cons_append, List.append_assoc, h.heading_eq, h'.heading_eq] at heq
  have heq := List.append_cancel_left (List.cons.inj heq).2
  obtain ⟨hkeyword, hrest⟩ := eq_of_append_of_forall k.isAlpha_keyword k'.isAlpha_keyword
    (h.isAlpha_head?_details _) (h'.isAlpha_head?_details _) heq
  exact ⟨Heading.keyword_injective (String.toList_inj.1 hkeyword), hrest⟩

/-- The statements of a body are told apart up to a line of less depth. -/
theorem toldApart_block (hbody' : ∀ n ∈ body', Outlined n.heading n)
    (ih : ∀ n ∈ body, ∀ {k' n'}, Outlined k' n' →
      ToldApart (Shallow (depth + 1)) (Node.linesText (depth + 1)) n n') :
    ToldApart (Shallow depth) (List.flatMap (Node.linesText (depth + 1))) body body' :=
  ToldApart.flatMap (fun n hn n' hn' => ih n hn (hbody' n' hn')) (fun _ hr => hr.succ)
    fun n _ r => shallow_linesText n depth r

theorem toldApart_cases {enum : String} {cs cs' : List EnumCase}
    (hcs : ∀ c ∈ cs, WellFormed.Case enum c) (hcs' : ∀ c ∈ cs', WellFormed.Case enum c) :
    ToldApart (Shallow depth)
      (List.flatMap fun c => lineText (Node.outlineLine (depth + 1) c.outline)) cs cs' := by
  refine ToldApart.flatMap (fun c hc c' hc' => toldApart_case (hcs c hc) (hcs' c' hc') (depth + 1))
    (fun _ hr => hr.succ) fun c _ r => ?_
  have htext : ∃ ds, c.outline.toList = 'C' :: ds := by simp [EnumCase.outline]
  obtain ⟨ds, htext⟩ := htext
  exact shallow_line htext (by simp) r

/-- The body of a statement is told apart once its first line is. -/
theorem block_inj (hbody' : ∀ n ∈ body', Outlined n.heading n)
    (ih : ∀ n ∈ body, ∀ {k' n'}, Outlined k' n' → ∀ depth,
      ToldApart (Shallow depth) (Node.linesText depth) n n')
    (hr : Shallow depth r) (hr' : Shallow depth r')
    (heq : (Node.outlineBlock (depth + 1) body).flatMap lineText ++ r =
      (Node.outlineBlock (depth + 1) body').flatMap lineText ++ r') : body = body' ∧ r = r' := by
  rw [flatMap_outlineBlock, flatMap_outlineBlock] at heq
  exact toldApart_block hbody' (fun n hn _ _ hn' => ih n hn hn' _) r r' hr hr' heq

/-- The lines of a statement tell the statement. -/
theorem Outlined.toldApart (h : Outlined k n) (h' : Outlined k' n') (depth : Nat) :
    ToldApart (Shallow depth) (Node.linesText depth) n n' := by
  induction h generalizing k' n' depth with
  | function hp hbody ih =>
    intro r r' hr hr' heq
    obtain ⟨rfl, heq⟩ := heading_inj (.function hp hbody) h' heq
    cases h' with
    | function hp' hbody' =>
      simp only [Node.details, Node.lowerLines, String.toList_append, List.append_assoc] at heq
      obtain ⟨rfl, hlower⟩ := prototype_inj hp hp' (flatMap_lineText_stops _ hr)
        (flatMap_lineText_stops _ hr') (List.append_cancel_left heq)
      obtain ⟨rfl, hrest⟩ := block_inj hbody' ih hr hr' hlower
      exact ⟨rfl, hrest⟩
  | branch hcondition hbody ih =>
    intro r r' hr hr' heq
    obtain ⟨rfl, heq⟩ := heading_inj (.branch hcondition hbody) h' heq
    cases h' with
    | branch hcondition' hbody' =>
      simp only [Node.details, Node.lowerLines, String.toList_append, List.append_assoc] at heq
      obtain ⟨rfl, hlower⟩ := hcondition.toldApart hcondition' _ _ (flatMap_lineText_stops _ hr)
        (flatMap_lineText_stops _ hr') (List.append_cancel_left heq)
      obtain ⟨rfl, hrest⟩ := block_inj hbody' ih hr hr' hlower
      exact ⟨rfl, hrest⟩
  | caseTest hv hcase hbindings hbody ih =>
    intro r r' hr hr' heq
    obtain ⟨rfl, heq⟩ := heading_inj (.caseTest hv hcase hbindings hbody) h' heq
    cases h' with
    | caseTest hv' hcase' hbindings' hbody' =>
      simp only [Node.details, Node.lowerLines, String.toList_append, List.append_assoc] at heq
      obtain ⟨rfl, rfl, rfl, hlower⟩ := caseTest_inj hv hv' hcase hcase' hbindings hbindings'
        (List.append_cancel_left heq)
      obtain ⟨rfl, hrest⟩ := block_inj hbody' ih hr hr' hlower
      exact ⟨rfl, hrest⟩
  | @enumeration d hd =>
    intro r r' hr hr' heq
    obtain ⟨rfl, heq⟩ := heading_inj (.enumeration hd) h' heq
    cases h' with
    | @enumeration d' hd' =>
      simp only [Node.details, Node.lowerLines, String.toList_append, List.append_assoc] at heq
      obtain ⟨hname, hlower⟩ := (isWord_of_isIdentifier hd.name).inj
        (isWord_of_isIdentifier hd'.name) (flatMap_lineText_stops _ hr).isWordPart_eq_false
        (flatMap_lineText_stops _ hr').isWordPart_eq_false (List.append_cancel_left heq)
      rw [List.flatMap_map, List.flatMap_map] at hlower
      obtain ⟨hcases, hrest⟩ := toldApart_cases hd.cases (hname ▸ hd'.cases) r r' hr hr' hlower
      cases d
      cases d'
      cases hname
      cases hcases
      exact ⟨rfl, hrest⟩
  | declare hv =>
    intro r r' hr hr' heq
    obtain ⟨rfl, heq⟩ := heading_inj (.declare hv) h' heq
    cases h' with
    | declare hv' =>
      simp only [Node.details, Node.lowerLines, String.toList_append, List.append_assoc,
        List.flatMap_nil, List.nil_append] at heq
      obtain ⟨rfl, hrest⟩ := declaration_inj hv hv' hr.stops hr'.stops (List.append_cancel_left heq)
      exact ⟨rfl, hrest⟩
  | assign hv hvalue =>
    intro r r' hr hr' heq
    obtain ⟨rfl, heq⟩ := heading_inj (.assign hv hvalue) h' heq
    cases h' with
    | assign hv' hvalue' =>
      have hblank (t : List Char) : Stops (" = ".toList ++ t) :=
        stops_of_head? (c := ' ') rfl (by simp)
      simp only [Node.details, Node.lowerLines, String.toList_append, List.append_assoc,
        List.flatMap_nil, List.nil_append] at heq
      obtain ⟨rfl, hvalues⟩ := declaration_inj hv hv' (hblank _) (hblank _)
        (List.append_cancel_left heq)
      obtain ⟨rfl, hrest⟩ := hvalue.toldApart hvalue' _ _ hr.stops hr'.stops
        (List.append_cancel_left hvalues)
      exact ⟨rfl, hrest⟩
  | yield he =>
    intro r r' hr hr' heq
    obtain ⟨rfl, heq⟩ := heading_inj (.yield he) h' heq
    cases h' with
    | yield he' =>
      simp only [Node.details, Node.lowerLines, String.toList_append, List.append_assoc,
        List.flatMap_nil, List.nil_append] at heq
      obtain ⟨rfl, hrest⟩ := he.toldApart he' _ _ hr.stops hr'.stops (List.append_cancel_left heq)
      exact ⟨rfl, hrest⟩
  | print hargs =>
    intro r r' hr hr' heq
    obtain ⟨rfl, heq⟩ := heading_inj (.print hargs) h' heq
    cases h' with
    | print hargs' =>
      simp only [Node.details, Node.lowerLines, String.toList_append, List.append_assoc,
        List.flatMap_nil, List.nil_append, inlineAll_eq_map] at heq
      obtain ⟨rfl, hrest⟩ := separated_inj
        (fun a ha b hb => (hargs a ha).toldApart (hargs' b hb))
        (fun a ha => (ha.elim (hargs a) (hargs' a)).exists_cons) (List.append_cancel_left heq)
      exact ⟨rfl, hrest⟩
  | expression he =>
    intro r r' hr hr' heq
    obtain ⟨rfl, heq⟩ := heading_inj (.expression he) h' heq
    cases h' with
    | expression he' =>
      obtain ⟨-, hdetails, hlower⟩ := he.heading_eq
      obtain ⟨-, hdetails', hlower'⟩ := he'.heading_eq
      rw [hdetails, hlower, hdetails', hlower', String.toList_append, String.toList_append,
        List.append_assoc, List.append_assoc] at heq
      exact he.toldApart he' _ _ hr.stops hr'.stops (List.append_cancel_left heq)

end Statements

def Double.IsFinite (x : Double) : Prop := ∃ negative m q, x = .finite negative m q

/-- A string literal has no quote, and a float literal is finite. -/
def Node.IsPlain : Node → Prop
  | .string s => '"' ∉ s.toList
  | .float x => x.IsFinite
  | _ => True

section Programs

variable {n : Node}

theorem Shown.of_expression (h : WellFormed.Expression n) (hplain : ∀ x ∈ n.subtrees, x.IsPlain) :
    Shown n := by
  induction h with
  | integer => exact .integer
  | @float whole fraction hwhole hfraction hw hf =>
    by_cases hoverflow : Double.Overflows whole fraction
    · obtain ⟨negative, m, q, hfinite⟩ := (Node.forall_mem_subtrees.1 hplain).1
      rw [hoverflow.ofLexeme_eq] at hfinite
      cases hfinite
    · obtain ⟨m, q, hcanonical, hvalue⟩ := Double.exists_canonical_of_not_overflows hoverflow
      rw [hvalue]
      exact .float hcanonical
  | string => exact .string (Node.forall_mem_subtrees.1 hplain).1
  | boolean => exact .boolean
  | name hx => exact .name hx
  | call hf _ ih =>
    have hargs := Node.forall_mem_allSubtrees.1 (Node.forall_mem_subtrees.1 hplain).2
    exact .call hf fun a ha => ih a ha (hargs a ha)
  | binary hop _ _ iha ihb =>
    obtain ⟨hleft, hright⟩ := List.forall_mem_append.1 (Node.forall_mem_subtrees.1 hplain).2
    exact .binary hop (iha hleft) (ihb hright)

theorem Shown.of_initializer {type : String} (htype : IsTypeName type)
    (h : WellFormed.Initializer type n) (hplain : ∀ x ∈ n.subtrees, x.IsPlain) : Shown n := by
  cases h with
  | expression he => exact .of_expression he hplain
  | construction hbuiltin hcase hargs =>
    have henum : IsIdentifier type := htype.resolve_left (by simp [hbuiltin])
    have hplain := Node.forall_mem_allSubtrees.1 (Node.forall_mem_subtrees.1 hplain).2
    exact .construct henum hcase fun a ha => .of_expression (hargs a ha) (hplain a ha)

theorem Outlined.of_statement (h : WellFormed.Statement n)
    (hplain : ∀ x ∈ n.subtrees, x.IsPlain) : Outlined n.heading n := by
  have hbelow := (Node.forall_mem_subtrees.1 hplain).2
  induction h with
  | function hp _ ih =>
    have hbody := Node.forall_mem_allSubtrees.1 hbelow
    exact .function hp fun n hn => ih n hn (hbody n hn) (Node.forall_mem_subtrees.1 (hbody n hn)).2
  | branch hcondition _ ih =>
    obtain ⟨hplain, hbody⟩ := List.forall_mem_append.1 hbelow
    have hbody := Node.forall_mem_allSubtrees.1 hbody
    exact .branch (.of_expression hcondition hplain) fun n hn =>
      ih n hn (hbody n hn) (Node.forall_mem_subtrees.1 (hbody n hn)).2
  | caseTest hv _ hcase hbindings _ ih =>
    have hbody := Node.forall_mem_allSubtrees.1 hbelow
    exact .caseTest hv hcase hbindings fun n hn =>
      ih n hn (hbody n hn) (Node.forall_mem_subtrees.1 (hbody n hn)).2
  | enumeration hd => exact .enumeration hd
  | declare hv => exact .declare hv
  | assign hv hvalue => exact .assign hv (.of_initializer hv.type hvalue hbelow)
  | yield he => exact .yield (.of_expression he hbelow)
  | print hargs =>
    have hplain := Node.forall_mem_allSubtrees.1 hbelow
    exact .print fun a ha => .of_expression (hargs a ha) (hplain a ha)
  | expression he =>
    have hshown := Shown.of_expression he hplain
    rw [hshown.heading_eq.1]
    exact .expression hshown

/-- Programs with the same outline are the same, whatever texts they were read from. Strings are
shown as they are, so a quote inside one would look like its end, while a line end does no harm; and
an infinite float would look like the name `inf`. -/
theorem eq_of_outline_eq {source source' : String} {nodes nodes' : List Node}
    (h : parseSource source = .ok nodes) (h' : parseSource source' = .ok nodes')
    (hplain : ∀ x ∈ Node.allSubtrees nodes, x.IsPlain)
    (hplain' : ∀ x ∈ Node.allSubtrees nodes', x.IsPlain)
    (houtline : (Node.program nodes).outline = (Node.program nodes').outline) : nodes = nodes' := by
  have hnodes (n : Node) (hn : n ∈ nodes) : Outlined n.heading n :=
    .of_statement (WellFormed.of_parseSource h n hn) (Node.forall_mem_allSubtrees.1 hplain n hn)
  have hnodes' (n : Node) (hn : n ∈ nodes') : Outlined n.heading n :=
    .of_statement (WellFormed.of_parseSource h' n hn) (Node.forall_mem_allSubtrees.1 hplain' n hn)
  have hlines := congrArg lineText houtline
  rw [lineText_outline, lineText_outline] at hlines
  have hblock : ToldApart (Shallow 0) (List.flatMap (Node.linesText 1)) nodes nodes' :=
    toldApart_block hnodes' fun n hn _ _ hn' => (hnodes n hn).toldApart hn' _
  have heq := List.append_cancel_left hlines
  rw [← List.append_nil (nodes.flatMap _), ← List.append_nil (nodes'.flatMap _)] at heq
  exact (hblock [] [] (.inl rfl) (.inl rfl) heq).1

/-- Two texts of one program, which differ in blanks and in the digits of a float. -/
theorem eq_of_outline_eq_respelled :
    ∃ nodes nodes', parseSource "if ok \x7b print(\"a, b)\", 1 + 0.5); \x7d" = .ok nodes ∧
      parseSource "if ok\x7bprint(\"a, b)\",1+0.50);\x7d" = .ok nodes' ∧
      (∀ x ∈ Node.allSubtrees nodes, x.IsPlain) ∧ (∀ x ∈ Node.allSubtrees nodes', x.IsPlain) ∧
      (Node.program nodes).outline = (Node.program nodes').outline ∧ nodes = nodes' := by
  have hparse : parseSource "if ok \x7b print(\"a, b)\", 1 + 0.5); \x7d" = .ok [.branch (.name "ok")
      [.print [.string "a, b)", .binary (.integer 1) "+" (.float (.ofLexeme ['0'] ['5']))]]] := by
    decide +kernel
  have hparse' : parseSource "if ok\x7bprint(\"a, b)\",1+0.50);\x7d" = .ok [.branch (.name "ok")
      [.print [.string "a, b)",
        .binary (.integer 1) "+" (.float (.ofLexeme ['0'] ['5', '0']))]]] := by
    decide +kernel
  have hplain {x : Double} (hx : x.IsFinite) : ∀ y ∈ Node.allSubtrees [.branch (.name "ok")
      [.print [.string "a, b)", .binary (.integer 1) "+" (.float x)]]], y.IsPlain := by
    simp [Node.descendants, Node.allSubtrees, Node.IsPlain, hx]
  have hhalf := hplain (x := .ofLexeme ['0'] ['5']) ⟨_, _, _, rfl⟩
  have hhalf' := hplain (x := .ofLexeme ['0'] ['5', '0']) ⟨_, _, _, rfl⟩
  have houtline : (Node.program [.branch (.name "ok") [.print [.string "a, b)",
      .binary (.integer 1) "+" (.float (.ofLexeme ['0'] ['5']))]]]).outline =
      (Node.program [.branch (.name "ok") [.print [.string "a, b)",
        .binary (.integer 1) "+" (.float (.ofLexeme ['0'] ['5', '0']))]]]).outline := by
    decide +kernel
  exact ⟨_, _, hparse, hparse', hhalf, hhalf', houtline,
    eq_of_outline_eq hparse hparse' hhalf hhalf' houtline⟩

end Programs

end SumLang
