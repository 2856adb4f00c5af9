import SumLang.Proofs.PrintConversions

/-! The conversions that print arithmetic. A value is printed as a number, except where truth values
are calculated with and no operand is a float. -/
namespace SumLang

open Lowering (prototypes)

inductive ScalarType where
  | int
  | float
  | bool
deriving DecidableEq

def ScalarType.name : ScalarType → String
  | int => "Int"
  | float => "Float"
  | bool => "Bool"

/-- Arithmetic at a place, in a program with some functions: literals, variables and calls with the
four operators between them. The types of these leaves are listed from left to right. -/
inductive Arithmetic (fs : List Prototype) (Γ : List Enclosing) :
    Node → List ScalarType → Prop where
  | integer {n : Int} : Arithmetic fs Γ (.integer n) [.int]
  | float {x : Double} : Arithmetic fs Γ (.float x) [.float]
  | boolean {b : Bool} : Arithmetic fs Γ (.boolean b) [.bool]
  | name {x : String} {k : ScalarType} : Resolves Γ x (some k.name) → Arithmetic fs Γ (.name x) [k]
  | call {f : String} {args : List Node} {p : Prototype} {k : ScalarType} :
    IsLast Prototype.name fs f p → p.result = k.name → Arithmetic fs Γ (.call f args) [k]
  | operation {a b : Node} {op : String} {ks ls : List ScalarType} : op ∈ ["+", "-", "*", "/"] →
    Arithmetic fs Γ a ks → Arithmetic fs Γ b ls → Arithmetic fs Γ (.binary a op b) (ks ++ ls)

/-- The conversion that prints a value calculated from leaves of some types. C calculates with
floats if one of them is a float, and otherwise with integers, which truth values are converted
to. -/
def arithmeticConversion (ks : List ScalarType) : String :=
  if .float ∈ ks then "%f" else "%d"

/-- Arithmetic with a type that is evident: it has a float or no truth value in it, or is just a
truth value. -/
def Evident (ks : List ScalarType) : Prop :=
  .float ∈ ks ∨ .bool ∉ ks ∨ ks = [.bool]

/-- The type that arithmetic is given by the types of its leaves. -/
def evidentType (ks : List ScalarType) : Option String :=
  if .float ∈ ks then some "Float"
  else if .bool ∉ ks then some "Int"
  else if ks = [.bool] then some "Bool"
  else none

theorem evidentType_singleton (k : ScalarType) : evidentType [k] = some k.name := by
  cases k <;> rfl

theorem evidentType_eq_float_iff {ks : List ScalarType} :
    evidentType ks = some "Float" ↔ .float ∈ ks := by
  unfold evidentType
  split_ifs <;> simp_all

theorem evidentType_eq_int_iff {ks : List ScalarType} :
    evidentType ks = some "Int" ↔ .float ∉ ks ∧ .bool ∉ ks := by
  unfold evidentType
  split_ifs <;> simp_all

theorem evidentType_append {ks ls : List ScalarType} (hks : ks ≠ []) (hls : ls ≠ []) :
    evidentType (ks ++ ls) = operationType (evidentType ks) (evidentType ls) := by
  have hne : ks ++ ls ≠ [.bool] := by
    intro h
    rcases List.append_eq_singleton_iff.1 h with ⟨rfl, -⟩ | ⟨-, rfl⟩
    · exact hks rfl
    · exact hls rfl
  unfold operationType
  simp only [Bool.or_eq_true, Bool.and_eq_true, decide_eq_true_eq, evidentType_eq_float_iff,
    evidentType_eq_int_iff]
  simp only [evidentType, if_neg hne, List.mem_append]
  split_ifs <;> simp_all

variable {fs : List Prototype} {Γ : List Enclosing} {e : Node} {ks : List ScalarType}

theorem Arithmetic.ne_nil (h : Arithmetic fs Γ e ks) : ks ≠ [] := by
  induction h with
  | operation _ _ _ ih => simp [ih]
  | _ => simp

theorem Arithmetic.hasType (h : Arithmetic fs Γ e ks) : HasType fs Γ e (evidentType ks) := by
  induction h with
  | integer => exact .integer
  | float => exact .float
  | boolean => exact .boolean
  | name hx =>
    rw [evidentType_singleton]
    exact .name hx
  | call hp hresult =>
    rw [evidentType_singleton, ← hresult]
    exact .call hp
  | operation _ ha hb iha ihb =>
    rw [evidentType_append ha.ne_nil hb.ne_nil]
    exact iha.operation ihb

theorem Converts.eq_conversion {type? : Option String} {c : String} (h : Converts type? c) :
    c = conversion type? := by
  cases h with
  | int => rfl
  | bool => rfl
  | float => rfl
  | other hint hbool hfloat =>
    unfold conversion
    split
    · exact absurd rfl hint
    · exact absurd rfl hbool
    · exact absurd rfl hfloat
    · rfl

theorem conversion_evidentType (h : Evident ks) :
    conversion (evidentType ks) = arithmeticConversion ks := by
  unfold evidentType arithmeticConversion
  rcases h with h | h | rfl
  · simp [h, conversion]
  · split_ifs
    · rfl
    · rfl
  · rfl

theorem conversion_of_not_evident (h : ¬ Evident ks) : conversion (evidentType ks) = "%s" := by
  simp only [Evident, not_or, not_not] at h
  obtain ⟨hfloat, hbool, hne⟩ := h
  rw [evidentType, if_neg hfloat, if_neg (not_not.2 hbool), if_neg hne]
  rfl

/-- A printed expression and its printing statement. Where the expression is arithmetic, the
conversion is that of its value exactly if its type is evident, and otherwise one for texts. -/
structure PrintsArithmetic (s : Settings) (r : Registry) (fs : List Prototype)
    (printed : List Enclosing × Node) (out : String × String) : Prop where
  value : Valued s r printed.2 out.2
  conversion : ∀ ks, Arithmetic fs printed.1 printed.2 ks →
    (out.1 = arithmeticConversion ks ↔ Evident ks)
  otherwise : ∀ ks, Arithmetic fs printed.1 printed.2 ks → ¬ Evident ks → out.1 = "%s"

theorem PrintsAs.printsArithmetic {s : Settings} {r : Registry} {printed : List Enclosing × Node}
    {out : String × String} (h : PrintsAs s r fs printed out) :
    PrintsArithmetic s r fs printed out := by
  have hout (ks : List ScalarType) (hks : Arithmetic fs printed.1 printed.2 ks) :
      out.1 = SumLang.conversion (evidentType ks) :=
    (h.unique _ hks.hasType).eq_conversion
  have htexts (ks : List ScalarType) (hks : Arithmetic fs printed.1 printed.2 ks)
      (hnot : ¬ Evident ks) : out.1 = "%s" := by
    rw [hout ks hks, conversion_of_not_evident hnot]
  refine ⟨h.value, fun ks hks => ⟨fun heq => ?_, fun hks' => ?_⟩, htexts⟩
  · by_contra hnot
    rw [htexts ks hks hnot, arithmeticConversion] at heq
    split at heq <;> simp at heq
  · rw [hout ks hks, conversion_evidentType hks']

/-- Printed arithmetic has the conversion of its value exactly if a leaf is a float, or no leaf is a
truth value, or there is nothing to calculate. -/
theorem printf_arithmetic_iff (source : String) (nodes : List Node)
    (hsource : parseSource source = .ok nodes) (s : Settings) (hs : s.dialect = .c) (text : String)
    (h : generate s nodes = .ok text) :
    ∃ r lines, Registry.ofProgram nodes = .ok r ∧ lowerToCode s nodes = .ok lines ∧
      text = fileText (lines.map (Line.render s.indent)) ∧
      List.Forall₂ (PrintsArithmetic s r (prototypes nodes)) (programPrints s nodes)
        (printfs lines) ∧
      ∀ es, Node.print es ∈ Node.allSubtrees nodes →
        ∀ e ∈ es, ∃ Γ, (Γ, e) ∈ programPrints s nodes := by
  have hwell := WellFormed.of_parseSource hsource
  obtain ⟨r, lines, hr, hlines, htext, hprints⟩ := printsAs_of_generate hwell hs h
  refine ⟨r, lines, hr, hlines, htext, hprints.imp fun _ _ => PrintsAs.printsArithmetic, ?_⟩
  intro es hes e he
  exact listed_programPrints hwell s _ hes es rfl e he

/-- A call and variables of each type. With a float in it, arithmetic may have truth values in it,
too. -/
theorem printf_arithmetic_half :
    ∃ nodes r lines, parseSource ("func half(b: Bool) -> Float \x7b return 0.5; \x7d " ++
        "let n: Int = 2; let b: Bool = true; print(half(b) * (n + b), n * 3, b);") = .ok nodes ∧
      lowerToCode {} nodes = .ok lines ∧
      printfs lines = [("%f", "half(b) * (n + b)"), ("%d", "n * 3"), ("%d", "b")] ∧
      List.Forall₂ (PrintsArithmetic {} r (prototypes nodes)) (programPrints {} nodes)
        (printfs lines) := by
  have hparse : parseSource ("func half(b: Bool) -> Float \x7b return 0.5; \x7d let n: Int = 2; " ++
      "let b: Bool = true; print(half(b) * (n + b), n * 3, b);") =
        .ok [.function ⟨"half", [⟨.immutable, "Bool", "b"⟩], "Float"⟩
            [.yield (.float (Double.ofLexeme ['0'] ['5']))],
          .assign ⟨.immutable, "Int", "n"⟩ (.integer 2),
          .assign ⟨.immutable, "Bool", "b"⟩ (.boolean true),
          .print [.binary (.call "half" [.name "b"]) "*" (.binary (.name "n") "+" (.name "b")),
            .binary (.name "n") "*" (.integer 3), .name "b"]] := by
    decide +kernel
  obtain ⟨r, lines, -, hlines, -, hprints, -⟩ := printf_arithmetic_iff _ _ hparse {} rfl _ rfl
  refine ⟨_, r, lines, hparse, hlines, ?_, hprints⟩
  obtain rfl := Except.ok.inj hlines
  decide +kernel

/-- The sum of a truth value and an integer is an integer, and is printed as if it were a text. -/
theorem printf_truth_sum :
    ∃ nodes lines Γ e, parseSource "print(true + 1);" = .ok nodes ∧
      lowerToCode {} nodes = .ok lines ∧ programPrints {} nodes = [(Γ, e)] ∧
      Arithmetic (prototypes nodes) Γ e [.bool, .int] ∧
      arithmeticConversion [.bool, .int] = "%d" ∧ printfs lines = [("%s", "true + 1")] := by
  have hparse : parseSource "print(true + 1);" =
      .ok [.print [.binary (.boolean true) "+" (.integer 1)]] := by
    decide +kernel
  refine ⟨_, _, _, _, hparse, rfl, rfl, .operation (by decide) .boolean .integer, rfl, ?_⟩
  decide +kernel

end SumLang
