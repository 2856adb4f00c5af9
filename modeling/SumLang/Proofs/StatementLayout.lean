import SumLang.Proofs.LexicalScope
import SumLang.Proofs.LoweringChecks

/-! What statements are lowered to: a tree of lines and blocks that follows the tree of the
statements. -/
namespace SumLang

/-- Code as a tree. A block has a head, and may define a type at its end. -/
inductive CodeTree where
  | line (code : Code)
  | block (head : Code.Head) (body : List CodeTree) (defines : Option String)

namespace CodeTree

mutual

def lines (level : Nat) : CodeTree → List Line
  | line code => [⟨level, code⟩]
  | block head body defines =>
    ⟨level, .enter head⟩ :: allLines (level + 1) body ++ [⟨level, .leave defines⟩]

def allLines (level : Nat) : List CodeTree → List Line
  | [] => []
  | t :: ts => t.lines level ++ allLines level ts

end

@[simp] theorem allLines_append (level : Nat) (ts us : List CodeTree) :
    allLines level (ts ++ us) = allLines level ts ++ allLines level us := by
  induction ts with
  | nil => rfl
  | cons t ts ih => simp [allLines, ih]

def statement (st : Code.Statement) : CodeTree := .line (.statement st)

end CodeTree

/-- The text of a node's value, where the enums of `r` are known. -/
def Valued (s : Settings) (r : Registry) (n : Node) (text : String) : Prop :=
  ∀ m : Memory, m.enums = r → Lowering.lower s n m = .ok (some text) m

/-- The statement that prints an expression at a place: by the conversion of its type, or to the
output stream. -/
inductive Prints (s : Settings) (r : Registry) (fs : List Prototype) (Γ : List Enclosing) :
    Node → Code.Statement → Prop where
  | printf {e text type? conversion} : s.dialect.streams = false → Valued s r e text →
      HasType fs Γ e type? → Converts type? conversion →
      Prints s r fs Γ e (.printf conversion text)
  | stream {e text} : s.dialect.streams = true → Valued s r e text →
      Prints s r fs Γ e (.stream text)

def CaseLayout.bindingTrees (s : Settings) (c : CaseLayout) (owner : String)
    (bindings : List Variable) : List CodeTree :=
  (bindings.zip c.fields).map fun b => .statement (c.binding s owner b.1 b.2.name)

mutual

/-- The code of a statement at a place. -/
inductive Lays (s : Settings) (r : Registry) (fs : List Prototype) :
    List Enclosing → Node → List CodeTree → Prop where
  | function {Γ p body ts} : LaysAll s r fs Γ p.formals [] body ts →
      Lays s r fs Γ (.function p body) [.block (.function (s.signature p)) ts none]
  | branch {Γ condition text body ts} : Valued s r condition text →
      LaysAll s r fs Γ [] [] body ts →
      Lays s r fs Γ (.branch condition body) [.block (.branch text) ts none]
  | caseTest {Γ v case c bindings body ts} : r.lookup v.type case = .ok c →
      bindings.length = c.arity → LaysAll s r fs Γ bindings [] body ts →
      Lays s r fs Γ (.caseTest v case bindings body)
        [.block (.test (c.test v.name)) (c.bindingTrees s v.name bindings ++ ts) none]
  /-- Enums are declared before all else. -/
  | enumeration {Γ d} : Lays s r fs Γ (.enumeration d) []
  | declare {Γ v} : Lays s r fs Γ (.declare v) [.statement (.declare (s.binder v))]
  | assign {Γ v value text} : Valued s r value text →
      Lays s r fs Γ (.assign v value) [.statement (.define (s.binder v) text)]
  | yield {Γ e text} : Valued s r e text → Lays s r fs Γ (.yield e) [.statement (.yield text)]
  | print {Γ es sts} : List.Forall₂ (Prints s r fs Γ) es sts →
      Lays s r fs Γ (.print es) (sts.map CodeTree.statement)
  | expression {Γ e text} : e.isExpression = true → Valued s r e text →
      Lays s r fs Γ e [.statement (.evaluate text)]

/-- The code of the statements of a block from a place on, where the head of the block binds some
variables and some statements stand before the place. -/
inductive LaysAll (s : Settings) (r : Registry) (fs : List Prototype) :
    List Enclosing → List Variable → List Node → List Node → List CodeTree → Prop where
  | nil {Γ bound earlier} : LaysAll s r fs Γ bound earlier [] []
  | cons {Γ bound earlier n ns ts us} : Lays s r fs (⟨bound, earlier⟩ :: Γ) n ts →
      LaysAll s r fs Γ bound (earlier ++ [n]) ns us →
      LaysAll s r fs Γ bound earlier (n :: ns) (ts ++ us)

end

/-- A memory that has some more code than another, at the same level. -/
structure Memory.Extends (m m' : Memory) (ts : List CodeTree) : Prop where
  lines : m'.lines.toList = m.lines.toList ++ CodeTree.allLines m.level ts
  level : m'.level = m.level

namespace Memory

variable {m m₁ m₂ : Memory} {r : Registry} {fs : List Prototype} {Γ : List Enclosing}

namespace Extends

variable {ts us : List CodeTree}

theorem refl (m : Memory) : m.Extends m [] := ⟨by simp [CodeTree.allLines], rfl⟩

theorem trans (h : m.Extends m₁ ts) (h' : m₁.Extends m₂ us) : m.Extends m₂ (ts ++ us) := by
  refine ⟨?_, h'.level.trans h.level⟩
  rw [h'.lines, h.lines, h.level, CodeTree.allLines_append, List.append_assoc]

theorem write (m : Memory) (code : Code) : m.Extends (m.write code) [.line code] := by
  refine ⟨?_, rfl⟩
  simp [Memory.write, CodeTree.allLines, CodeTree.lines]

/-- The lines of a body between the lines that open and close it are a block. -/
theorem block {head : Code.Head} (h : (m.write (.enter head)).enter.Extends m₁ ts) :
    m.Extends (m₁.leave.write (.leave none)) [.block head ts none] := by
  have hlevel : m₁.leave.level = m.level := by
    change m₁.level - 1 = m.level
    rw [h.level]
    rfl
  refine ⟨?_, hlevel⟩
  have hlines : (m₁.leave.write (.leave none)).lines.toList =
      m₁.lines.toList ++ [⟨m₁.leave.level, .leave none⟩] := by
    simp [Memory.write, Memory.leave]
  have henter : (m.write (.enter head)).enter.lines.toList =
      m.lines.toList ++ [⟨m.level, .enter head⟩] := by
    simp [Memory.write, Memory.enter]
  rw [hlines, h.lines, henter, hlevel]
  simp [CodeTree.allLines, CodeTree.lines, Memory.enter, Memory.write]

end Extends

namespace At

theorem write (h : m.At r fs Γ) (code : Code) : (m.write code).At r fs Γ :=
  ⟨h.enums, h.functions, h.scopes⟩

theorem enter (h : m.At r fs Γ) : m.enter.At r fs (⟨[], []⟩ :: Γ) := by
  refine ⟨h.enums, h.functions, ?_⟩
  obtain ⟨outer, hscopes, hempty⟩ := h.scopes
  refine ⟨outer, ?_, hempty⟩
  rw [Memory.enter, hscopes]
  rfl

theorem leave {b : Enclosing} (h : m.At r fs (b :: Γ)) : m.leave.At r fs Γ := by
  refine ⟨h.enums, h.functions, ?_⟩
  obtain ⟨outer, hscopes, hempty⟩ := h.scopes
  refine ⟨outer, ?_, hempty⟩
  rw [Memory.leave, hscopes]
  rfl

/-- A declaration adds to the names of the innermost block. -/
theorem declare {b b' : Enclosing} {v : Variable} (h : m.At r fs (b :: Γ))
    (hscope : b'.scope = (v.name, v.type) :: b.scope) : (m.declare v).At r fs (b' :: Γ) := by
  obtain ⟨outer, hscopes, hempty⟩ := h.scopes
  have hm : m.declare v =
      { m with scopes := ((v.name, v.type) :: b.scope) :: (Γ.map Enclosing.scope ++ outer) } := by
    rw [Memory.declare, hscopes]
    rfl
  rw [hm]
  refine ⟨h.enums, h.functions, outer, ?_, hempty⟩
  rw [List.map_cons, hscope]
  rfl

/-- A name that the head of a block binds. -/
theorem declare_bound {bound : List Variable} {v : Variable} (h : m.At r fs (⟨bound, []⟩ :: Γ)) :
    (m.declare v).At r fs (⟨bound ++ [v], []⟩ :: Γ) :=
  h.declare (by simp [Enclosing.scope, Enclosing.declared, entries])

/-- A statement that declares a name. -/
theorem declare_earlier {b : Enclosing} {n : Node} {v : Variable} (h : m.At r fs (b :: Γ))
    (hn : n.declared? = some v) : (m.declare v).At r fs (⟨b.bound, b.earlier ++ [n]⟩ :: Γ) :=
  h.declare (by simp [Enclosing.scope, Enclosing.declared, entries, hn])

/-- A statement that declares nothing. -/
theorem skip {b : Enclosing} {n : Node} (h : m.At r fs (b :: Γ)) (hn : n.declared? = none) :
    m.At r fs (⟨b.bound, b.earlier ++ [n]⟩ :: Γ) := by
  have hscope : Enclosing.scope ⟨b.bound, b.earlier ++ [n]⟩ = b.scope := by
    simp [Enclosing.scope, Enclosing.declared, hn]
  obtain ⟨outer, hscopes, hempty⟩ := h.scopes
  refine ⟨h.enums, h.functions, outer, ?_, hempty⟩
  rw [hscopes, List.map_cons, List.map_cons, hscope]

end At

theorem lines_declare (m : Memory) (v : Variable) :
    (m.declare v).lines = m.lines ∧ (m.declare v).level = m.level := by
  unfold Memory.declare
  split <;> exact ⟨rfl, rfl⟩

theorem Extends.declare (m : Memory) (v : Variable) : m.Extends (m.declare v) [] := by
  obtain ⟨hlines, hlevel⟩ := lines_declare m v
  exact ⟨by simp [hlines, CodeTree.allLines], hlevel⟩

end Memory

namespace Lowering

variable {s : Settings} {r : Registry} {fs : List Prototype} {Γ : List Enclosing} {m m' : Memory}

theorem bind_eq_ok {α β : Type} {x : Lowering α} {f : α → Lowering β} {b : β} :
    (x >>= f) m = .ok b m' ↔ ∃ a m₁, x m = .ok a m₁ ∧ f a m₁ = .ok b m' := by
  cases hrun : x m with
  | ok a m₁ => simp [bind_of_ok hrun]
  | error e m₁ => simp [bind_of_error hrun]

theorem pure_eq_ok {α : Type} {a b : α} : (pure a : Lowering α) m = .ok b m' ↔ a = b ∧ m = m' := by
  change EStateM.Result.ok a m = .ok b m' ↔ _
  simp

/-! Values are lowered without a change of the memory. -/

theorem exists_valued (s : Settings) (r : Registry) {e : Node} (h : WellFormed.Expression e) :
    ∃ text, Valued s r e text := by
  obtain ⟨text, hlower⟩ := exists_lower s h
  exact ⟨text, fun m _ => by rw [hlower]; rfl⟩

theorem ofEnums_of_ok {α : Type} {x : Registry → Except EnumFault α} {a : α}
    (h : x m.enums = .ok a) : ofEnums x m = .ok a m := by
  have hget : (get : Lowering Memory) m = .ok m m := rfl
  rw [ofEnums, bind_of_ok hget, h]
  rfl

theorem ofEnums_of_error {α : Type} {x : Registry → Except EnumFault α} {f : EnumFault}
    (h : x m.enums = .error f) : ofEnums x m = .error (.enum f) m := by
  have hget : (get : Lowering Memory) m = .ok m m := rfl
  rw [ofEnums, bind_of_ok hget, h]
  rfl

theorem constructorOf_eq (enum case : String) (m : Memory) :
    constructorOf enum case m =
      (if m.enums.contains enum = true then
        ofEnums (·.lookup enum case) >>= fun c => pure c.constructor
      else pure (CaseLayout.constructor ⟨enum, case, []⟩) : Lowering String) m :=
  rfl

/-- Whether and how a constructor is found depends on the enums only. -/
theorem constructorOf_cases (r : Registry) (enum case : String) :
    (∃ name, ∀ m : Memory, m.enums = r → constructorOf enum case m = .ok name m) ∨
      ∀ m : Memory, m.enums = r → ∃ f, constructorOf enum case m = .error f m := by
  by_cases henum : r.contains enum = true
  · cases hlookup : r.lookup enum case with
    | ok c =>
      refine .inl ⟨c.constructor, fun m hr => ?_⟩
      subst hr
      rw [constructorOf_eq, if_pos henum, bind_of_ok (ofEnums_of_ok hlookup)]
      rfl
    | error f =>
      refine .inr fun m hr => ⟨.enum f, ?_⟩
      subst hr
      rw [constructorOf_eq, if_pos henum, bind_of_error (ofEnums_of_error hlookup)]
  · refine .inl ⟨CaseLayout.constructor ⟨enum, case, []⟩, fun m hr => ?_⟩
    subst hr
    rw [constructorOf_eq, if_neg henum]
    rfl

theorem exists_lower_construct (enum case : String) {args : List Node}
    (h : ∀ a ∈ args, WellFormed.Expression a) :
    ∃ texts : List String, List.Forall₂ (fun a text => lower s a = pure (some text)) args texts ∧
      lower s (.construct enum case args) = (constructorOf enum case >>= fun name =>
        pure (some (name ++ "(" ++ ", ".intercalate texts ++ ")"))) := by
  obtain ⟨texts, hall, hlowers⟩ := exists_lowerValues fun a ha => exists_lower s (h a ha)
  exact ⟨texts, hall, by rw [lower, hlowers, pure_bind, joinValues_map_some, pure_bind]⟩

/-- The value of a declaration. -/
theorem valued_of_lower (type : String) {value : Node} (h : WellFormed.Initializer type value)
    {a : Option String} (hrun : lower s value m = .ok a m') (hm : m.enums = r) :
    ∃ text, a = some text ∧ m' = m ∧ Valued s r value text := by
  obtain ⟨text, hvalued⟩ : ∃ text, Valued s r value text := by
    cases h with
    | expression he => exact exists_valued s r he
    | @construction case args _ _ hargs =>
      obtain ⟨texts, -, hlower⟩ := exists_lower_construct type case hargs
      rcases constructorOf_cases r type case with ⟨name, hname⟩ | hnone
      · refine ⟨name ++ "(" ++ ", ".intercalate texts ++ ")", fun m hm => ?_⟩
        rw [hlower, bind_of_ok (hname m hm)]
        rfl
      · obtain ⟨f, hf⟩ := hnone m hm
        rw [hlower, bind_of_error hf] at hrun
        cases hrun
  obtain ⟨rfl, rfl⟩ : some text = a ∧ m = m' := by simpa [hvalued m hm] using hrun
  exact ⟨text, rfl, rfl, hvalued⟩

theorem exists_valued_of_lower {e : Node} (h : WellFormed.Expression e) {a : Option String}
    (hrun : lower s e m = .ok a m') (hm : m.enums = r) :
    ∃ text, a = some text ∧ m' = m ∧ Valued s r e text :=
  valued_of_lower "Int" (.expression h) hrun hm

theorem testedCase_eq_ok {enum case : String} {bound : Nat} {c : CaseLayout}
    (hrun : testedCase s enum case bound m = .ok c m') :
    m' = m ∧ m.enums.lookup enum case = .ok c ∧ bound = c.arity := by
  unfold testedCase at hrun
  split at hrun
  · exact nomatch hrun
  obtain ⟨k, m₁, hlookup, hrun⟩ := bind_eq_ok.1 hrun
  cases hr : m.enums.lookup enum case with
  | error f =>
    rw [ofEnums_of_error hr] at hlookup
    exact nomatch hlookup
  | ok k' =>
    rw [ofEnums_of_ok hr] at hlookup
    obtain ⟨rfl, rfl⟩ : k' = k ∧ m = m₁ := by simpa using hlookup
    split at hrun
    · exact nomatch hrun
    · next hbound =>
      obtain ⟨rfl, rfl⟩ := pure_eq_ok.1 hrun
      exact ⟨rfl, rfl, by simpa using hbound⟩

theorem extends_declareAll {vs bound : List Variable} {a : Unit}
    (hrun : vs.forM declare m = .ok a m') (hm : m.At r fs (⟨bound, []⟩ :: Γ)) :
    m.Extends m' [] ∧ m'.At r fs (⟨bound ++ vs, []⟩ :: Γ) := by
  induction vs generalizing m bound with
  | nil =>
    obtain ⟨-, rfl⟩ := pure_eq_ok.1 hrun
    exact ⟨.refl m, by simpa using hm⟩
  | cons v vs ih =>
    have hrun : vs.forM declare (m.declare v) = .ok a m' := hrun
    obtain ⟨hextends, hat⟩ := ih hrun hm.declare_bound
    exact ⟨(Memory.Extends.declare m v).trans hextends, by simpa using hat⟩

theorem extends_writeBindings {c : CaseLayout} {owner : String} {bound : List Variable} {a : Unit}
    {bs : List (Variable × Variable)} (hrun : writeBindings s c owner bs m = .ok a m')
    (hm : m.At r fs (⟨bound, []⟩ :: Γ)) :
    m.Extends m' (bs.map fun b => .statement (c.binding s owner b.1 b.2.name)) ∧
      m'.At r fs (⟨bound ++ bs.map Prod.fst, []⟩ :: Γ) := by
  induction bs generalizing m bound with
  | nil =>
    obtain ⟨-, rfl⟩ := pure_eq_ok.1 hrun
    exact ⟨.refl m, by simpa using hm⟩
  | cons b bs ih =>
    obtain ⟨v, field⟩ := b
    have hrun : writeBindings s c owner bs
      ((m.declare v).write (.statement (c.binding s owner v field.name))) = .ok a m' := hrun
    obtain ⟨hextends, hat⟩ := ih hrun (hm.declare_bound.write _)
    exact ⟨((Memory.Extends.declare m v).trans (.write _ _)).trans hextends, by simpa using hat⟩

theorem prints_of_writePrint {e : Node} {text : String} {a : Unit}
    (he : WellFormed.Expression e) (hvalued : Valued s r e text) (hm : m.At r fs Γ)
    (hrun : writePrint s e text m = .ok a m') :
    ∃ st, Prints s r fs Γ e st ∧ m' = m.write (.statement st) := by
  unfold writePrint at hrun
  split at hrun
  · next hstreams =>
    refine ⟨.stream text, .stream hstreams hvalued, ?_⟩
    have hrun : EStateM.Result.ok () (m.write (.statement (.stream text))) = .ok a m' := hrun
    simpa using hrun.symm
  · next hstreams =>
    have hprints := Prints.printf (by simpa using hstreams) hvalued (hm.hasType he)
      (converts_conversion (m.typeOf e))
    refine ⟨_, hprints, ?_⟩
    have hrun : EStateM.Result.ok ()
        (m.write (.statement (.printf (conversion (m.typeOf e)) text))) = .ok a m' := hrun
    simpa using hrun.symm

theorem prints_of_lowerPrints {es : List Node} {a : Unit} (hes : ∀ e ∈ es, WellFormed.Expression e)
    (hrun : lowerPrints s es m = .ok a m') (hm : m.At r fs Γ) :
    ∃ sts, List.Forall₂ (Prints s r fs Γ) es sts ∧
      m.Extends m' (sts.map CodeTree.statement) ∧ m'.At r fs Γ := by
  induction es generalizing m with
  | nil =>
    rw [lowerPrints] at hrun
    obtain ⟨-, rfl⟩ := pure_eq_ok.1 hrun
    exact ⟨[], .nil, .refl m, hm⟩
  | cons e es ih =>
    obtain ⟨he, hes⟩ := List.forall_mem_cons.1 hes
    rw [lowerPrints] at hrun
    obtain ⟨value, m₁, hvalue, hrest⟩ := bind_eq_ok.1 hrun
    obtain ⟨text, rfl, rfl, hvalued⟩ := exists_valued_of_lower he hvalue hm.enums
    obtain ⟨_, m₂, hprint, hrest⟩ := bind_eq_ok.1 hrest
    obtain ⟨st, hst, rfl⟩ := prints_of_writePrint he hvalued hm hprint
    obtain ⟨sts, hsts, hextends, hat⟩ := ih hes hrest (hm.write _)
    exact ⟨st :: sts, .cons hst hsts, (Memory.Extends.write _ _).trans hextends, hat⟩

/-- Wherever the statement stands, its lowering writes its code. -/
def Laid (s : Settings) (r : Registry) (fs : List Prototype) (n : Node) : Prop :=
  ∀ (Γ : List Enclosing) (b : Enclosing) (m m' : Memory), statement s n m = .ok () m' →
    m.At r fs (b :: Γ) → ∃ ts, Lays s r fs (b :: Γ) n ts ∧ m.Extends m' ts ∧
      m'.At r fs (⟨b.bound, b.earlier ++ [n]⟩ :: Γ)

theorem laysAll_of_lowerAll {ns earlier : List Node} {bound : List Variable} {a : Unit}
    (h : ∀ n ∈ ns, Laid s r fs n) (hrun : lowerAll s ns m = .ok a m')
    (hm : m.At r fs (⟨bound, earlier⟩ :: Γ)) :
    ∃ ts, LaysAll s r fs Γ bound earlier ns ts ∧ m.Extends m' ts ∧
      m'.At r fs (⟨bound, earlier ++ ns⟩ :: Γ) := by
  induction ns generalizing m earlier with
  | nil =>
    rw [lowerAll] at hrun
    obtain ⟨-, rfl⟩ := pure_eq_ok.1 hrun
    exact ⟨[], .nil, .refl m, by simpa using hm⟩
  | cons n ns ih =>
    obtain ⟨hn, hns⟩ := List.forall_mem_cons.1 h
    have heq : lowerAll s (n :: ns) = (statement s n >>= fun _ => lowerAll s ns) := by
      rw [lowerAll, statement, bind_assoc]
    rw [heq] at hrun
    obtain ⟨_, m₁, hstatement, hrest⟩ := bind_eq_ok.1 hrun
    obtain ⟨ts, hts, hextends, hat⟩ := hn _ _ _ _ hstatement hm
    obtain ⟨us, hus, hextends', hat'⟩ := ih hns hrest hat
    exact ⟨ts ++ us, .cons hts hus, hextends.trans hextends', by simpa using hat'⟩

theorem checkTopLevel_eq_ok {name : String} {a : Unit}
    (hrun : checkTopLevel name m = .ok a m') : m = m' := by
  have hrun : (if 0 < m.depth then
      throw (.unsupported ("nested function '" ++ name ++ "'")
        (some "define functions at the top level"))
    else pure () : Lowering Unit) m = .ok a m' := hrun
  split at hrun
  · exact nomatch hrun
  · exact (pure_eq_ok.1 hrun).2

theorem lower_of_statement {n : Node} {a : Unit} (hn : n.isExpression = false)
    (hrun : statement s n m = .ok a m') : ∃ value, lower s n m = .ok value m' := by
  obtain ⟨value, m₁, hlower, hrest⟩ := bind_eq_ok.1 hrun
  rw [finishStatement, if_neg (by simp [hn])] at hrest
  obtain ⟨-, rfl⟩ := pure_eq_ok.1 hrest
  exact ⟨value, hlower⟩

theorem isExpression_of_wellFormed {e : Node} (h : WellFormed.Expression e) :
    e.isExpression = true := by
  cases h <;> rfl

/-- The rest of a block whose head and first lines are written: its statements and its end. -/
theorem block_of_lowerAll {m₁ : Memory} {head : Code.Head} {ts : List CodeTree} {body : List Node}
    {bound : List Variable} {a : Option String} (h : ∀ n ∈ body, Laid s r fs n)
    (hextends : (m.write (.enter head)).enter.Extends m₁ ts) (hat : m₁.At r fs (⟨bound, []⟩ :: Γ))
    (hrun : (lowerAll s body >>= fun _ => leave >>= fun _ => write (.leave none) >>= fun _ =>
      pure none) m₁ = .ok a m') :
    ∃ us, LaysAll s r fs Γ bound [] body us ∧ m.Extends m' [.block head (ts ++ us) none] ∧
      m'.At r fs Γ := by
  obtain ⟨_, m₂, hbody, hrest⟩ := bind_eq_ok.1 hrun
  obtain ⟨us, hus, hextends', hat'⟩ := laysAll_of_lowerAll h hbody hat
  have hrest : EStateM.Result.ok none (m₂.leave.write (.leave none)) = .ok a m' := hrest
  obtain ⟨-, rfl⟩ := EStateM.Result.ok.inj hrest
  exact ⟨us, hus, .block (hextends.trans hextends'), hat'.leave.write _⟩

/-- A function, which may also stand outside of all blocks. -/
theorem lays_of_function {p : Prototype} {body : List Node} {a : Option String}
    (h : ∀ n ∈ body, Laid s r fs n) (hrun : lower s (.function p body) m = .ok a m')
    (hm : m.At r fs Γ) :
    ∃ ts, Lays s r fs Γ (.function p body) ts ∧ m.Extends m' ts ∧ m'.At r fs Γ := by
  rw [lower] at hrun
  obtain ⟨_, m₁, htop, hrest⟩ := bind_eq_ok.1 hrun
  obtain rfl := checkTopLevel_eq_ok htop
  have hrest : (p.formals.forM declare >>= fun _ => lowerAll s body >>= fun _ => leave >>= fun _ =>
      write (.leave none) >>= fun _ => pure none)
      (m.write (.enter (.function (s.signature p)))).enter = .ok a m' := hrest
  obtain ⟨_, m₁, hformals, hrest⟩ := bind_eq_ok.1 hrest
  obtain ⟨hextends, hat⟩ := extends_declareAll hformals (hm.write _).enter
  obtain ⟨ts, hts, hblock, hat⟩ := block_of_lowerAll h hextends hat hrest
  exact ⟨_, .function hts, hblock, hat⟩

section Statements

/-- A node without a value is laid if its lowering writes its code. -/
theorem laid_of_lower {n : Node} (hn : n.isExpression = false)
    (h : ∀ (Γ : List Enclosing) (b : Enclosing) (m m' : Memory) (value : Option String),
      lower s n m = .ok value m' → m.At r fs (b :: Γ) →
        ∃ ts, Lays s r fs (b :: Γ) n ts ∧ m.Extends m' ts ∧
          m'.At r fs (⟨b.bound, b.earlier ++ [n]⟩ :: Γ)) : Laid s r fs n := by
  intro Γ b m m' hrun hm
  obtain ⟨value, hlower⟩ := lower_of_statement hn hrun
  exact h Γ b m m' value hlower hm

theorem laid_function {p : Prototype} {body : List Node} (h : ∀ n ∈ body, Laid s r fs n) :
    Laid s r fs (.function p body) := by
  refine laid_of_lower rfl fun Γ b m m' value hlower hm => ?_
  obtain ⟨ts, hts, hextends, hat⟩ := lays_of_function h hlower hm
  exact ⟨ts, hts, hextends, hat.skip rfl⟩

theorem laid_branch {condition : Node} {body : List Node} (hc : WellFormed.Expression condition)
    (h : ∀ n ∈ body, Laid s r fs n) : Laid s r fs (.branch condition body) := by
  refine laid_of_lower rfl fun Γ b m m' value hlower hm => ?_
  rw [lower] at hlower
  obtain ⟨text?, m₁, hcondition, hrest⟩ := bind_eq_ok.1 hlower
  obtain ⟨text, rfl, rfl, hvalued⟩ := exists_valued_of_lower hc hcondition hm.enums
  obtain ⟨ts, hts, hblock, hat⟩ := block_of_lowerAll h (.refl _) (hm.write _).enter hrest
  exact ⟨_, .branch hvalued hts, hblock, hat.skip rfl⟩

theorem laid_caseTest {v : Variable} {case : String} {bindings : List Variable} {body : List Node}
    (h : ∀ n ∈ body, Laid s r fs n) : Laid s r fs (.caseTest v case bindings body) := by
  refine laid_of_lower rfl fun Γ b m m' value hlower hm => ?_
  rw [lower] at hlower
  obtain ⟨c, m₁, htest, hrest⟩ := bind_eq_ok.1 hlower
  obtain ⟨rfl, hlookup, harity⟩ := testedCase_eq_ok htest
  have hrest : (writeBindings s c v.name (bindings.zip c.fields) >>= fun _ => lowerAll s body >>=
      fun _ => leave >>= fun _ => write (.leave none) >>= fun _ => pure none)
      (m₁.write (.enter (.test (c.test v.name)))).enter = .ok value m' := hrest
  obtain ⟨_, m₂, hbindings, hrest⟩ := bind_eq_ok.1 hrest
  obtain ⟨hextends, hat⟩ := extends_writeBindings hbindings (hm.write _).enter
  rw [List.nil_append, List.map_fst_zip (Nat.le_of_eq harity)] at hat
  obtain ⟨ts, hts, hblock, hat⟩ := block_of_lowerAll h hextends hat hrest
  rw [hm.enums] at hlookup
  exact ⟨_, .caseTest hlookup harity hts, hblock, hat.skip rfl⟩

theorem laid_declare (v : Variable) : Laid s r fs (.declare v) := by
  refine laid_of_lower rfl fun Γ b m m' value hlower hm => ?_
  rw [lower] at hlower
  have hrest : EStateM.Result.ok none
      ((m.declare v).write (.statement (.declare (s.binder v)))) = .ok value m' := hlower
  obtain ⟨-, rfl⟩ := EStateM.Result.ok.inj hrest
  exact ⟨_, .declare, (Memory.Extends.declare m v).trans (.write _ _),
    (hm.declare_earlier rfl).write _⟩

theorem laid_assign {v : Variable} {e : Node} (h : WellFormed.Initializer v.type e) :
    Laid s r fs (.assign v e) := by
  refine laid_of_lower rfl fun Γ b m m' value hlower hm => ?_
  rw [lower] at hlower
  obtain ⟨text?, m₁, hvalue, hrest⟩ := bind_eq_ok.1 hlower
  obtain ⟨text, rfl, rfl, hvalued⟩ := valued_of_lower v.type h hvalue hm.enums
  have hrest : EStateM.Result.ok none
      ((m₁.declare v).write (.statement (.define (s.binder v) text))) = .ok value m' := hrest
  obtain ⟨-, rfl⟩ := EStateM.Result.ok.inj hrest
  exact ⟨_, .assign hvalued, (Memory.Extends.declare m₁ v).trans (.write _ _),
    (hm.declare_earlier rfl).write _⟩

theorem laid_yield {e : Node} (h : WellFormed.Expression e) : Laid s r fs (.yield e) := by
  refine laid_of_lower rfl fun Γ b m m' value hlower hm => ?_
  rw [lower] at hlower
  obtain ⟨text?, m₁, hvalue, hrest⟩ := bind_eq_ok.1 hlower
  obtain ⟨text, rfl, rfl, hvalued⟩ := exists_valued_of_lower h hvalue hm.enums
  have hrest : EStateM.Result.ok none (m₁.write (.statement (.yield text))) = .ok value m' := hrest
  obtain ⟨-, rfl⟩ := EStateM.Result.ok.inj hrest
  exact ⟨_, .yield hvalued, .write _ _, (hm.write _).skip rfl⟩

theorem laid_print {es : List Node} (h : ∀ e ∈ es, WellFormed.Expression e) :
    Laid s r fs (.print es) := by
  refine laid_of_lower rfl fun Γ b m m' value hlower hm => ?_
  rw [lower] at hlower
  obtain ⟨_, m₁, hprints, hrest⟩ := bind_eq_ok.1 hlower
  obtain ⟨-, rfl⟩ := pure_eq_ok.1 hrest
  obtain ⟨sts, hsts, hextends, hat⟩ := prints_of_lowerPrints h hprints hm
  exact ⟨_, .print hsts, hextends, hat.skip rfl⟩

theorem laid_expression {e : Node} (h : WellFormed.Expression e) : Laid s r fs e := by
  intro Γ b m m' hrun hm
  obtain ⟨value, m₁, hlower, hrest⟩ := bind_eq_ok.1 hrun
  obtain ⟨text, rfl, rfl, hvalued⟩ := exists_valued_of_lower h hlower hm.enums
  have hexpression := isExpression_of_wellFormed h
  rw [finishStatement, if_pos hexpression] at hrest
  have hrest : EStateM.Result.ok () (m₁.write (.statement (.evaluate text))) = .ok () m' := hrest
  obtain ⟨-, rfl⟩ := EStateM.Result.ok.inj hrest
  have hdeclared : e.declared? = none := by
    cases h <;> rfl
  exact ⟨_, .expression hexpression hvalued, .write _ _, (hm.write _).skip hdeclared⟩

theorem laid_statement {n : Node} (h : WellFormed.Statement n) : Laid s r fs n := by
  induction h with
  | function _ _ ih => exact laid_function ih
  | branch hc _ ih => exact laid_branch hc ih
  | caseTest _ _ _ _ _ ih => exact laid_caseTest ih
  | enumeration =>
    refine laid_of_lower rfl fun Γ b m m' value hlower hm => ?_
    rw [lower] at hlower
    cases hlower
  | declare => exact laid_declare _
  | assign _ hvalue => exact laid_assign hvalue
  | yield he => exact laid_yield he
  | print hes => exact laid_print hes
  | expression he => exact laid_expression he

end Statements

end Lowering

end SumLang
