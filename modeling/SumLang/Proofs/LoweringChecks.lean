import SumLang.Compilation
import SumLang.Proofs.EnumAdmission
import SumLang.Proofs.RoundTrip
import SumLang.Proofs.WellFormed

/-! What the lowering of a statement checks. It goes through exactly if the statement has no
definition in it and its uses of enums agree with the registry, at whatever depth they stand. -/
namespace SumLang

namespace Node

mutual

/-- The nodes below a node, each before those below it. -/
def descendants : Node → List Node
  | program body => allSubtrees body
  | function _ body => allSubtrees body
  | assign _ value => value :: descendants value
  | yield value => value :: descendants value
  | print values => allSubtrees values
  | call _ args => allSubtrees args
  | branch condition body => condition :: descendants condition ++ allSubtrees body
  | caseTest _ _ _ body => allSubtrees body
  | binary a _ b => a :: descendants a ++ b :: descendants b
  | construct _ _ args => allSubtrees args
  | _ => []

def allSubtrees : List Node → List Node
  | [] => []
  | n :: ns => n :: descendants n ++ allSubtrees ns

end

def subtrees (n : Node) : List Node := n :: n.descendants

theorem forall_mem_subtrees {n : Node} {P : Node → Prop} :
    (∀ x ∈ n.subtrees, P x) ↔ P n ∧ ∀ x ∈ n.descendants, P x :=
  List.forall_mem_cons

theorem forall_mem_allSubtrees {ns : List Node} {P : Node → Prop} :
    (∀ x ∈ allSubtrees ns, P x) ↔ ∀ n ∈ ns, ∀ x ∈ n.subtrees, P x := by
  induction ns with
  | nil => simp [allSubtrees]
  | cons n ns ih =>
    rw [allSubtrees, ← subtrees, List.forall_mem_append, ih, List.forall_mem_cons]

def isDefinition : Node → Bool
  | function _ _ => true
  | enumeration _ => true
  | _ => false

end Node

/-- The fault is one that programs are checked for. -/
def LoweringFault.IsReported (f : LoweringFault) : Prop := (Fault.lowering f).isInternal = false

namespace Lowering

theorem bind_of_ok {α β : Type} {x : Lowering α} {f : α → Lowering β} {m m' : Memory} {a : α}
    (h : x m = .ok a m') : (x >>= f) m = f a m' := by
  change EStateM.bind x f m = _
  simp [EStateM.bind, h]

theorem bind_of_error {α β : Type} {x : Lowering α} {f : α → Lowering β} {m m' : Memory}
    {e : LoweringFault} (h : x m = .error e m') : (x >>= f) m = .error e m' := by
  change EStateM.bind x f m = _
  simp [EStateM.bind, h]

/-- What is asked of a node inside a statement, where the enums of `r` are known. -/
def Supported (s : Settings) (r : Registry) : Node → Prop
  | .function _ _ => False
  | .enumeration _ => False
  | .caseTest v case bindings _ =>
    s.enumTags = true ∧ ∃ k, r.lookup v.type case = .ok k ∧ bindings.length = k.arity
  | .construct enum case _ => r.contains enum = true → ∃ k, r.lookup enum case = .ok k
  | _ => True

/-- Between two depths, a step goes through exactly if `P` holds, and otherwise reports a fault. The
enums stay as they are. -/
def Decides (r : Registry) (d d' : Nat) {α : Type} (x : Lowering α) (P : Prop) : Prop :=
  ∀ m : Memory, m.enums = r → m.depth = d →
    match x m with
    | .ok _ m' => P ∧ m'.enums = r ∧ m'.depth = d'
    | .error f _ => ¬P ∧ f.IsReported

namespace Decides

variable {r : Registry} {d d₁ d₂ : Nat} {α β : Type} {P Q : Prop}

theorem congr {x : Lowering α} (h : Decides r d d₁ x P) (hPQ : P ↔ Q) : Decides r d d₁ x Q :=
  propext hPQ ▸ h

theorem bind {x : Lowering α} {f : α → Lowering β} (hx : Decides r d d₁ x P)
    (hf : ∀ a, Decides r d₁ d₂ (f a) Q) : Decides r d d₂ (x >>= f) (P ∧ Q) := by
  intro m hr hd
  have hxm := hx m hr hd
  cases hrun : x m with
  | error e m' =>
    rw [hrun] at hxm
    rw [bind_of_error hrun]
    exact ⟨fun hPQ => hxm.1 hPQ.1, hxm.2⟩
  | ok a m' =>
    rw [hrun] at hxm
    rw [bind_of_ok hrun]
    obtain ⟨hP, hr', hd'⟩ := hxm
    have hfm := hf a m' hr' hd'
    split
    · next hok =>
      rw [hok] at hfm
      exact ⟨⟨hP, hfm.1⟩, hfm.2⟩
    · next herror =>
      rw [herror] at hfm
      exact ⟨fun hPQ => hfm.1 hPQ.2, hfm.2⟩

theorem pure (a : α) : Decides r d d (Pure.pure a : Lowering α) True :=
  fun _ hr hd => ⟨trivial, hr, hd⟩

theorem throw {f : LoweringFault} (hP : ¬P) (hf : f.IsReported) :
    Decides r d d₁ (MonadExcept.throw f : Lowering α) P :=
  fun _ _ _ => ⟨hP, hf⟩

theorem modify {f : Memory → Memory} (henums : ∀ m, (f m).enums = m.enums)
    (hdepth : ∀ m, m.depth = d → (f m).depth = d₁) :
    Decides r d d₁ (modify f : Lowering Unit) True :=
  fun m hr hd => ⟨trivial, (henums m).trans hr, hdepth m hd⟩

/-- A step after one that cannot fail. -/
theorem then_bind {x : Lowering α} {f : α → Lowering β} (hx : Decides r d d₁ x True)
    (hf : ∀ a, Decides r d₁ d₂ (f a) Q) : Decides r d d₂ (x >>= f) Q :=
  (hx.bind hf).congr (iff_of_eq (true_and Q))

/-- A step before one that cannot fail. -/
theorem bind_then {x : Lowering α} {f : α → Lowering β} (hx : Decides r d d₁ x P)
    (hf : ∀ a, Decides r d₁ d₂ (f a) True) : Decides r d d₂ (x >>= f) P :=
  (hx.bind hf).congr (iff_of_eq (and_true P))

/-- A step that looks at the memory. -/
theorem get_bind {f : Memory → Lowering α}
    (hf : ∀ m, m.enums = r → m.depth = d → Decides r d d₁ (f m) P) :
    Decides r d d₁ (get >>= f) P :=
  fun m hr hd => hf m hr hd m hr hd

theorem forM {as : List α} {f : α → Lowering Unit} {P : α → Prop}
    (h : ∀ a ∈ as, Decides r d d (f a) (P a)) : Decides r d d (as.forM f) (∀ a ∈ as, P a) := by
  induction as with
  | nil => exact (pure ()).congr (by simp)
  | cons a as ih =>
    obtain ⟨ha, has⟩ := List.forall_mem_cons.1 h
    exact (ha.bind fun _ => ih has).congr List.forall_mem_cons.symm

theorem write (code : Code) : Decides r d d (Lowering.write code) True :=
  modify (fun _ => rfl) fun _ hd => hd

theorem writeStatement (st : Code.Statement) : Decides r d d (Lowering.writeStatement st) True :=
  write (.statement st)

theorem declare (v : Variable) : Decides r d d (Lowering.declare v) True := by
  have hkeeps (m : Memory) : (m.declare v).enums = m.enums ∧ (m.declare v).depth = m.depth := by
    unfold Memory.declare
    split <;> exact ⟨rfl, rfl⟩
  exact modify (fun m => (hkeeps m).1) fun m hd => (hkeeps m).2.trans hd

theorem enter : Decides r d (d + 1) Lowering.enter True :=
  modify (fun _ => rfl) fun _ hd => congrArg (· + 1) hd

theorem leave : Decides r (d + 1) d Lowering.leave True :=
  modify (fun _ => rfl) fun _ hd => congrArg (· - 1) hd

/-- The start of a body, whose nodes stand one level deeper. -/
theorem entering {h : Code} {x : Lowering α} (hx : Decides r (d + 1) d₁ x P) :
    Decides r d d₁ (do Lowering.write h; Lowering.enter; x) P :=
  (write h).then_bind fun _ => enter.then_bind fun _ => hx

/-- The end of a body. -/
theorem leaving (a : α) :
    Decides r (d + 1) d (do Lowering.leave; Lowering.write (.leave none); return a) True :=
  leave.then_bind fun _ => (write _).then_bind fun _ => pure a

/-- Nothing follows a step that always fails. -/
theorem bind_of_false {x : Lowering α} {f : α → Lowering β} (hx : Decides r d d₁ x False) :
    Decides r d d₂ (x >>= f) False := by
  intro m hr hd
  have hxm := hx m hr hd
  cases hrun : x m with
  | error e m' =>
    rw [hrun] at hxm
    rw [bind_of_error hrun]
    exact hxm
  | ok a m' =>
    rw [hrun] at hxm
    exact hxm.1.elim

/-- A check that may report a fault before the rest goes on. -/
theorem check {p : Prop} [Decidable p] {e : LoweringFault} {f : Unit → Lowering α}
    (he : e.IsReported) (hf : Decides r d d₁ (f ()) P) :
    Decides r d d₁ (if p then MonadExcept.throw e >>= f else f ()) (¬p ∧ P) := by
  by_cases hp : p
  · rw [if_pos hp]
    exact fun _ _ _ => ⟨fun h => h.1 hp, he⟩
  · rw [if_neg hp]
    exact hf.congr (by simp [hp])

theorem ofEnums_bind {x : Registry → Except EnumFault α} {f : α → Lowering β} {P : α → Prop}
    (hf : ∀ a, Decides r d d₁ (f a) (P a)) :
    Decides r d d₁ (ofEnums x >>= f) (∃ a, x r = .ok a ∧ P a) := by
  rw [ofEnums, bind_assoc]
  refine get_bind fun m hr _ => ?_
  rw [hr]
  cases hx : x r with
  | ok a =>
    rw [pure_bind]
    exact (hf a).congr (by simp)
  | error e => exact fun _ _ _ => ⟨by simp, rfl⟩

end Decides

/-! Expressions are lowered without a look at the memory, and nothing in them is checked. -/

theorem exists_lowerValues {s : Settings} {args : List Node}
    (h : ∀ a ∈ args, ∃ text, lower s a = pure (some text)) :
    ∃ texts : List String, List.Forall₂ (fun a text => lower s a = pure (some text)) args texts ∧
      lowerValues s args = pure (texts.map some) := by
  induction args with
  | nil => exact ⟨[], .nil, by simp [lowerValues]⟩
  | cons a args ih =>
    obtain ⟨ha, hargs⟩ := List.forall_mem_cons.1 h
    obtain ⟨text, hlower⟩ := ha
    obtain ⟨texts, hall, hlowers⟩ := ih hargs
    exact ⟨text :: texts, .cons hlower hall, by simp [lowerValues, hlower, hlowers]⟩

theorem exists_lower (s : Settings) {e : Node} (h : WellFormed.Expression e) :
    ∃ text, lower s e = pure (some text) := by
  induction h with
  | call _ _ ih =>
    obtain ⟨texts, -, hlowers⟩ := exists_lowerValues ih
    exact ⟨_, by rw [lower, hlowers, pure_bind, joinValues_map_some, pure_bind]⟩
  | @binary a b op hop _ _ iha ihb =>
    obtain ⟨c, p, -, -, hp⟩ := exists_operator hop
    obtain ⟨left, hleft⟩ := iha
    obtain ⟨right, hright⟩ := ihb
    have hprecedence : precedenceOf op = pure p := by simp [precedenceOf, hp]
    exact ⟨_, by rw [lower, hprecedence, pure_bind, hleft, pure_bind, hright, pure_bind]⟩
  | integer hn => exact ⟨_, lower_integer (length_toString_le (by decide) hn)⟩
  | _ => exact ⟨_, by rw [lower]⟩

theorem forall_subtrees_of_expression {e : Node} (h : WellFormed.Expression e) :
    ∀ x ∈ e.subtrees, WellFormed.Expression x := by
  induction h with
  | call hf hargs ih =>
    exact Node.forall_mem_subtrees.2 ⟨.call hf hargs, Node.forall_mem_allSubtrees.2 ih⟩
  | binary hop ha hb iha ihb =>
    refine Node.forall_mem_subtrees.2 ⟨.binary hop ha hb, ?_⟩
    exact List.forall_mem_append.2 ⟨iha, ihb⟩
  | integer hn => simpa [Node.subtrees, Node.descendants] using .integer hn
  | float hw hf hw' hf' => simpa [Node.subtrees, Node.descendants] using .float hw hf hw' hf'
  | string => simpa [Node.subtrees, Node.descendants] using .string
  | boolean => simpa [Node.subtrees, Node.descendants] using .boolean
  | name hx => simpa [Node.subtrees, Node.descendants] using .name hx

section Statements

variable {s : Settings} {r : Registry} {d : Nat}

/-- Everything in an expression is supported. -/
theorem supported_of_expression {e : Node} (h : WellFormed.Expression e) :
    ∀ x ∈ e.subtrees, Supported s r x := by
  intro x hx
  cases forall_subtrees_of_expression h x hx <;> trivial

theorem decides_expression {e : Node} (h : WellFormed.Expression e) :
    Decides r d d (lower s e) True := by
  obtain ⟨text, hlower⟩ := exists_lower s h
  rw [hlower]
  exact .pure _

theorem decides_constructorOf (enum case : String) :
    Decides r d d (constructorOf enum case)
      (r.contains enum = true → ∃ k, r.lookup enum case = .ok k) := by
  refine .get_bind fun m hr _ => ?_
  rw [hr]
  by_cases henum : r.contains enum = true
  · rw [if_pos henum]
    exact (Decides.ofEnums_bind fun k => .pure _).congr (by simp [henum])
  · rw [if_neg henum]
    exact (Decides.pure _).congr (by simp [henum])

/-- The tests of a case test: tags, the enum and its case, the number of bindings. -/
theorem decides_testedCase (enum case : String) (bound : Nat) :
    Decides r d d (testedCase s enum case bound)
      (s.enumTags = true ∧ ∃ k, r.lookup enum case = .ok k ∧ bound = k.arity) := by
  unfold testedCase
  refine Decides.congr (Decides.check ?_ (Decides.ofEnums_bind fun k =>
    Decides.check ?_ (Decides.pure k))) ?_
  · rfl
  · rfl
  · simp

theorem decides_writeBindings (c : CaseLayout) (owner : String) (bs : List (Variable × Variable)) :
    Decides r d d (writeBindings s c owner bs) True := by
  induction bs with
  | nil => exact .pure ()
  | cons b bs ih =>
    exact (Decides.declare b.1).then_bind fun _ => (Decides.writeStatement _).then_bind fun _ => ih

theorem decides_writePrint (n : Node) (text : String) :
    Decides r d d (writePrint s n text) True := by
  unfold writePrint
  split
  · exact .writeStatement _
  · exact .get_bind fun _ _ _ => .writeStatement _

theorem decides_lowerPrints {args : List Node} (h : ∀ a ∈ args, WellFormed.Expression a) :
    Decides r d d (lowerPrints s args) True := by
  induction args with
  | nil => rw [lowerPrints]; exact .pure ()
  | cons a args ih =>
    obtain ⟨ha, hargs⟩ := List.forall_mem_cons.1 h
    rw [lowerPrints]
    exact (decides_expression ha).then_bind fun _ =>
      (decides_writePrint a _).then_bind fun _ => ih hargs

theorem decides_statement {n : Node} {P : Prop} (h : Decides r d d (lower s n) P) :
    Decides r d d (statement s n) P := by
  refine h.bind_then fun value => ?_
  unfold finishStatement
  split
  · exact .writeStatement _
  · exact .pure ()

theorem decides_lowerAll {ns : List Node} {P : Node → Prop}
    (h : ∀ n ∈ ns, Decides r d d (lower s n) (P n)) :
    Decides r d d (lowerAll s ns) (∀ n ∈ ns, P n) := by
  induction ns with
  | nil =>
    rw [lowerAll]
    exact (Decides.pure ()).congr (by simp)
  | cons n ns ih =>
    obtain ⟨hn, hns⟩ := List.forall_mem_cons.1 h
    have heq : lowerAll s (n :: ns) = (statement s n >>= fun _ => lowerAll s ns) := by
      rw [lowerAll, statement, bind_assoc]
    rw [heq]
    exact ((decides_statement hn).bind fun _ => ih hns).congr List.forall_mem_cons.symm

theorem decides_initializer {type : String} {value : Node}
    (h : WellFormed.Initializer type value) :
    Decides r d d (lower s value) (∀ x ∈ value.subtrees, Supported s r x) := by
  cases h with
  | expression he =>
    exact (decides_expression he).congr ⟨fun _ => supported_of_expression he, fun _ => trivial⟩
  | @construction case args _ _ hargs =>
    obtain ⟨texts, -, hlowers⟩ := exists_lowerValues fun a ha => exists_lower s (hargs a ha)
    rw [lower, hlowers, pure_bind, joinValues_map_some, pure_bind]
    refine ((decides_constructorOf type case).bind_then fun _ => .pure _).congr ?_
    rw [Node.forall_mem_subtrees, Node.descendants, Node.forall_mem_allSubtrees]
    exact ⟨fun h => ⟨h, fun a ha => supported_of_expression (hargs a ha)⟩, fun h => h.1⟩

theorem decides_checkTopLevel (name : String) : Decides r d d (checkTopLevel name) (d = 0) := by
  refine .get_bind fun m _ hd => ?_
  rw [hd]
  by_cases hpos : 0 < d
  · rw [if_pos hpos]
    exact .throw (by omega) rfl
  · rw [if_neg hpos]
    exact (Decides.pure ()).congr ⟨fun _ => by omega, fun _ => trivial⟩

/-- The lowering of a statement, which is no function unless it stands in a body. -/
theorem decides_lower {n : Node} (h : WellFormed.Statement n)
    (hd : 0 < d ∨ ∀ p body, n ≠ .function p body) :
    Decides r d d (lower s n) (∀ x ∈ n.subtrees, Supported s r x) := by
  induction h generalizing d with
  | @function p body =>
    have hpos : 0 < d := hd.resolve_right fun h => h p body rfl
    have hnested : ¬ ∀ x ∈ (Node.function p body).subtrees, Supported s r x :=
      fun h => h _ List.mem_cons_self
    have hcheck : Decides r d d (checkTopLevel p.name) False :=
      (decides_checkTopLevel p.name).congr (iff_of_false (by omega) id)
    rw [lower]
    exact hcheck.bind_of_false.congr (iff_of_false id hnested)
  | @branch condition body hc _ ih =>
    have hbody : Decides r (d + 1) (d + 1) (lowerAll s body) _ :=
      decides_lowerAll fun n hn => ih n hn (.inl d.succ_pos)
    rw [lower]
    refine ((decides_expression hc).then_bind fun _ => .entering
      (hbody.bind_then fun _ => .leaving none)).congr ?_
    rw [Node.forall_mem_subtrees, Node.descendants, List.forall_mem_append,
      Node.forall_mem_allSubtrees]
    exact ⟨fun h => ⟨trivial, supported_of_expression hc, h⟩, fun h => h.2.2⟩
  | @caseTest v case bindings body _ _ _ _ _ ih =>
    have hbody : Decides r (d + 1) (d + 1) (lowerAll s body) _ :=
      decides_lowerAll fun n hn => ih n hn (.inl d.succ_pos)
    rw [lower]
    refine ((decides_testedCase v.type case bindings.length).bind fun c => .entering
      ((decides_writeBindings c v.name (bindings.zip c.fields)).then_bind fun _ =>
        hbody.bind_then fun _ => .leaving none)).congr ?_
    rw [Node.forall_mem_subtrees, Node.descendants, Node.forall_mem_allSubtrees]
    rfl
  | @enumeration e =>
    have hnested : ¬ ∀ x ∈ (Node.enumeration e).subtrees, Supported s r x :=
      fun h => h _ List.mem_cons_self
    rw [lower]
    exact .throw hnested rfl
  | declare =>
    rw [lower]
    refine ((Decides.declare _).then_bind fun _ => (Decides.writeStatement _).then_bind fun _ =>
      .pure none).congr ?_
    simp [Node.subtrees, Node.descendants, Supported]
  | assign _ hvalue =>
    rw [lower]
    refine ((decides_initializer hvalue).bind_then fun _ => (Decides.declare _).then_bind fun _ =>
      (Decides.writeStatement _).then_bind fun _ => .pure none).congr ?_
    refine Iff.trans ?_ Node.forall_mem_subtrees.symm
    exact ⟨fun h => ⟨trivial, h⟩, fun h => h.2⟩
  | yield he =>
    rw [lower]
    refine ((decides_expression he).then_bind fun _ => (Decides.writeStatement _).then_bind fun _ =>
      .pure none).congr ?_
    rw [Node.forall_mem_subtrees, Node.descendants]
    exact ⟨fun _ => ⟨trivial, supported_of_expression he⟩, fun _ => trivial⟩
  | print hargs =>
    rw [lower]
    refine ((decides_lowerPrints hargs).then_bind fun _ => .pure none).congr ?_
    rw [Node.forall_mem_subtrees, Node.descendants, Node.forall_mem_allSubtrees]
    exact ⟨fun _ => ⟨trivial, fun a ha => supported_of_expression (hargs a ha)⟩, fun _ => trivial⟩
  | expression he =>
    exact (decides_expression he).congr ⟨fun _ => supported_of_expression he, fun _ => trivial⟩

/-- A function at the top level. -/
theorem decides_function {p : Prototype} {body : List Node}
    (h : ∀ n ∈ body, WellFormed.Statement n) :
    Decides r 0 0 (lower s (.function p body))
      (∀ x ∈ (Node.function p body).descendants, Supported s r x) := by
  have htop : Decides r 0 0 (checkTopLevel p.name) True :=
    (decides_checkTopLevel p.name).congr (by simp)
  have hformals : Decides r 1 1 (p.formals.forM declare) True :=
    (Decides.forM fun v _ => .declare v).congr (by simp)
  have hbody : Decides r 1 1 (lowerAll s body) _ :=
    decides_lowerAll fun n hn => decides_lower (h n hn) (.inl Nat.one_pos)
  rw [lower]
  refine (htop.then_bind fun _ => .entering (hformals.then_bind fun _ =>
    hbody.bind_then fun _ => .leaving none)).congr ?_
  rw [Node.descendants, Node.forall_mem_allSubtrees]

end Statements

end Lowering

end SumLang
