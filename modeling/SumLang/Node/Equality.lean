import SumLang.Node

/-! Decidable equality of syntax trees. -/
namespace SumLang.Node

mutual

def same : Node → Node → Bool
  | program a, program b => sameAll a b
  | function p a, function q b => p == q && sameAll a b
  | prototype p, prototype q => p == q
  | declare v, declare w => v == w
  | assign v a, assign w b => v == w && same a b
  | yield a, yield b => same a b
  | print a, print b => sameAll a b
  | call f a, call g b => f == g && sameAll a b
  | name x, name y => x == y
  | branch c a, branch d b => same c d && sameAll a b
  | caseTest v c x a, caseTest w d y b => v == w && c == d && x == y && sameAll a b
  | typeName x, typeName y => x == y
  | binary a o b, binary c p d => same a c && o == p && same b d
  | integer m, integer n => m == n
  | float x, float y => x == y
  | string s, string t => s == t
  | boolean a, boolean b => a == b
  | enumeration d, enumeration e => d == e
  | enumCase c, enumCase d => c == d
  | construct e c a, construct f d b => e == f && c == d && sameAll a b
  | _, _ => false

def sameAll : List Node → List Node → Bool
  | [], [] => true
  | a :: as, b :: bs => same a b && sameAll as bs
  | _, _ => false

end

mutual

theorem eq_of_same {a b : Node} (h : same a b = true) : a = b := by
  fun_cases same a b with
  | case1 as bs | case7 as bs =>
    rw [same] at h
    rw [eq_of_sameAll h]
  | case6 a b =>
    rw [same] at h
    rw [eq_of_same h]
  | case2 _ as _ bs | case8 _ as _ bs =>
    simp only [same, Bool.and_eq_true, beq_iff_eq] at h
    rw [h.1, eq_of_sameAll h.2]
  | case5 _ a _ b =>
    simp only [same, Bool.and_eq_true, beq_iff_eq] at h
    rw [h.1, eq_of_same h.2]
  | case10 a as b bs =>
    simp only [same, Bool.and_eq_true] at h
    rw [eq_of_same h.1, eq_of_sameAll h.2]
  | case13 a _ b c _ d =>
    simp only [same, Bool.and_eq_true, beq_iff_eq] at h
    rw [eq_of_same h.1.1, h.1.2, eq_of_same h.2]
  | case20 _ _ as _ _ bs =>
    simp only [same, Bool.and_eq_true, beq_iff_eq] at h
    rw [h.1.1, h.1.2, eq_of_sameAll h.2]
  | case11 _ _ _ as _ _ _ bs =>
    simp only [same, Bool.and_eq_true, beq_iff_eq] at h
    rw [h.1.1.1, h.1.1.2, h.1.2, eq_of_sameAll h.2]
  | case21 => simp_all [same]
  | _ =>
    simp only [same, beq_iff_eq] at h
    rw [h]

theorem eq_of_sameAll {as bs : List Node} (h : sameAll as bs = true) : as = bs := by
  cases as <;> cases bs <;> simp only [sameAll, Bool.and_eq_true, Bool.false_eq_true] at h
  · rfl
  · rw [eq_of_same h.1, eq_of_sameAll h.2]

end

mutual

theorem same_self (a : Node) : same a a = true := by
  cases a with
  | program as | print as => rw [same, sameAll_self as]
  | yield a => rw [same, same_self a]
  | function _ as | call _ as | construct _ _ as | caseTest _ _ _ as =>
    simp only [same, beq_self_eq_true, Bool.true_and, sameAll_self as]
  | assign _ a => simp only [same, beq_self_eq_true, Bool.true_and, same_self a]
  | branch c as => simp only [same, same_self c, sameAll_self as, Bool.and_self]
  | binary a _ b => simp only [same, beq_self_eq_true, same_self a, same_self b, Bool.and_self]
  | _ => simp only [same, beq_self_eq_true]

theorem sameAll_self (as : List Node) : sameAll as as = true := by
  cases as with
  | nil => rfl
  | cons a as => simp only [sameAll, same_self a, sameAll_self as, Bool.and_self]

end

instance : DecidableEq Node := fun a b =>
  if h : same a b = true then isTrue (eq_of_same h)
  else isFalse fun e => h (e ▸ same_self a)

end SumLang.Node
