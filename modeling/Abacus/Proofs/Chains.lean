import Abacus.Proofs.Totality
import Abacus.Proofs.Writing

/-!
# Chains without brackets

A chain is an operand with any number of links behind it, each of them a sign and one more
operand.  Its value is the fold over its links (`Chain.value`).  A chain of numbers falls into
terms at its plus and minus signs (`Chain.terms`), so it is also a chain of terms, and that is
how its line is calculated (`calculate_chain`), however long it is.

The key local fact is `Chain.exists_script`: a chain whose signs bind alike, of operands that
bind more tightly, is a script that leans to the left.  It uses up one level more than its
operands, and so a chain of terms, which are chains of numbers, never runs out of them.
-/

namespace Abacus

/-- What is calculated at a sign. -/
def Sign.apply : Sign → Binary64 → Binary64 → Binary64
  | plus, x, y => x + y
  | minus, x, y => x - y
  | star, x, y => x * y
  | slash, x, y => x / y

/-- The operator of a sign gives this for all operands, over zero as well. -/
theorem Sign.onTwo?_operator (sign : Sign) :
    ∃ f, sign.operator.onTwo? = some f ∧ ∀ x y, f x y = some (sign.apply x y) := by
  cases sign with
  | plus => exact ⟨_, rfl, fun x y => rfl⟩
  | minus => exact ⟨_, rfl, fun x y => rfl⟩
  | star => exact ⟨_, rfl, fun x y => rfl⟩
  | slash => exact ⟨_, rfl, Binary64.divide?_eq⟩

/-- A sign behind some spaces, and what is on its right. -/
structure Link (α : Type) where
  gap : Nat
  sign : Sign
  right : α

/-- An operand with links behind it. -/
structure Chain (α : Type) where
  first : α
  links : List (Link α)

namespace Chain

variable {α : Type}

/-- The characters of a chain, if these are those of its operands. -/
def chars (operand : α → List Char) (c : Chain α) : List Char :=
  operand c.first ++
    c.links.flatMap fun k => List.replicate k.gap ' ' ++ k.sign.char :: operand k.right

theorem chars_cons (operand : α → List Char) (first : α) (k : Link α) (links : List (Link α)) :
    chars operand ⟨first, k :: links⟩ = operand first ++
      (List.replicate k.gap ' ' ++ k.sign.char :: chars operand ⟨k.right, links⟩) := by
  simp [chars]

/-- The value of a chain from left to right, if these are those of its operands. -/
def value (operand : α → Binary64) (c : Chain α) : Binary64 :=
  c.links.foldl (fun x k => k.sign.apply x (operand k.right)) (operand c.first)

/-- The signs of the chain bind with this precedence, and its operands are like this. -/
def IsOf (precedence : Nat) (IsOperand : α → Prop) (c : Chain α) : Prop :=
  IsOperand c.first ∧ ∀ k ∈ c.links, k.sign.precedence = precedence ∧ IsOperand k.right

end Chain

/-- A number behind some spaces. -/
structure Factor where
  spaces : Nat
  numeral : Numeral

namespace Factor

def chars (x : Factor) : List Char := List.replicate x.spaces ' ' ++ x.numeral.run

def value (x : Factor) : Binary64 := x.numeral.value

end Factor

/-- Numbers that are multiplied and divided. -/
abbrev Term := Chain Factor

namespace Term

def chars (t : Term) : List Char := Chain.chars Factor.chars t

def value (t : Term) : Binary64 := Chain.value Factor.value t

end Term

namespace Chain

/-- The terms of a number and the links behind it: each plus or minus begins a new one. -/
def cut (first : Factor) : List (Link Factor) → Chain Term
  | [] => ⟨⟨first, []⟩, []⟩
  | k :: links =>
    let terms := cut k.right links
    if k.sign.precedence = 1 then ⟨⟨first, []⟩, ⟨k.gap, k.sign, terms.first⟩ :: terms.links⟩
    else ⟨⟨first, k :: terms.first.links⟩, terms.links⟩

/-- The terms of a chain of numbers. -/
def terms (c : Chain Factor) : Chain Term := cut c.first c.links

/-- The line of a chain of numbers with some spaces behind it. -/
def line (c : Chain Factor) (spaces : Nat) : String :=
  String.ofList (c.chars Factor.chars ++ List.replicate spaces ' ')

/-- **Terms are multiplied out and joined by plus and minus.** -/
theorem cut_isOf (first : Factor) (links : List (Link Factor)) :
    (cut first links).IsOf 1 (IsOf 2 fun _ => True) := by
  induction links generalizing first with
  | nil => exact ⟨⟨trivial, by simp [cut]⟩, by simp [cut]⟩
  | cons k links ih =>
      obtain ⟨hfirst, hlinks⟩ := ih k.right
      rw [cut]
      split
      · next hsum =>
        exact ⟨⟨trivial, by simp⟩, List.forall_mem_cons.mpr ⟨⟨hsum, hfirst⟩, hlinks⟩⟩
      · next hproduct =>
        have hk : k.sign.precedence = 2 := by
          cases hsign : k.sign <;> simp_all [Sign.precedence]
        exact ⟨⟨trivial, List.forall_mem_cons.mpr ⟨⟨hk, trivial⟩, hfirst.2⟩⟩, hlinks⟩

/-- The first term begins with the first number. -/
theorem cut_first (first : Factor) (links : List (Link Factor)) :
    (cut first links).first = ⟨first, (cut first links).first.links⟩ := by
  cases links with
  | nil => rfl
  | cons k links =>
      rw [cut]
      split <;> rfl

/-- The terms are written as the chain is. -/
theorem cut_chars (first : Factor) (links : List (Link Factor)) :
    (cut first links).chars Term.chars = chars Factor.chars ⟨first, links⟩ := by
  induction links generalizing first with
  | nil => simp [cut, chars, Term.chars]
  | cons k links ih =>
      have hterms := ih k.right
      rw [cut, chars_cons, ← hterms]
      split
      · rw [chars_cons]
        simp [chars, Term.chars]
      · have hfirst : Term.chars ⟨first, k :: (cut k.right links).first.links⟩ = first.chars ++
            (List.replicate k.gap ' ' ++ k.sign.char :: (cut k.right links).first.chars) := by
          rw [Term.chars, chars_cons, ← cut_first, Term.chars]
        simp [chars, hfirst]

end Chain

namespace Script

/-- The script is written with these characters and has this value; outside of brackets it binds
at least with the precedence, and it needs no more levels than these. -/
structure AmountsTo (s : Script) (precedence levels : Nat) (cs : List Char) (x : Binary64) :
    Prop where
  chars_eq : s.chars = cs
  value_eq : s.formula.tree.value = .ok x
  hasBrackets : s.HasBrackets
  binds : s.Binds precedence
  levels_le : s.levels ≤ levels

namespace AmountsTo

variable {s r : Script} {p n : Nat} {cs ds : List Char} {x y : Binary64}

theorem number (spaces : Nat) (numeral : Numeral) (p n : Nat) :
    (Script.number spaces numeral).AmountsTo p n (List.replicate spaces ' ' ++ numeral.run)
      numeral.value where
  chars_eq := rfl
  value_eq := rfl
  hasBrackets := trivial
  binds _ hsign := nomatch hsign
  levels_le := Nat.zero_le n

/-- What binds more tightly than it must and needs fewer levels than it may. -/
theorem outward (h : s.AmountsTo p n cs x) {p' n' : Nat} (hp : p' ≤ p) (hn : n ≤ n') :
    s.AmountsTo p' n' cs x :=
  { h with
    binds := fun sign hsign => hp.trans (h.binds sign hsign)
    levels_le := h.levels_le.trans hn }

/-- One more operand behind a sign, which binds more tightly than the sign and needs fewer levels
than what is on the left. -/
theorem binary (h : s.AmountsTo p (n + 1) cs x) {sign : Sign} (hsign : sign.precedence = p)
    (hright : r.AmountsTo (p + 1) n ds y) (gap : Nat) :
    (Script.binary s gap sign r).AmountsTo p (n + 1)
      (cs ++ (List.replicate gap ' ' ++ sign.char :: ds)) (sign.apply x y) where
  chars_eq := by rw [chars, h.chars_eq, hright.chars_eq]
  value_eq := by
    obtain ⟨f, hf, hresult⟩ := sign.onTwo?_operator
    simp only [formula, Formula.tree, Expr.value, h.value_eq, hright.value_eq, hf, hresult,
      bind, Except.bind]
  hasBrackets := by
    subst hsign
    exact ⟨h.binds, hright.binds, h.hasBrackets, hright.hasBrackets⟩
  binds := by
    intro outer houter
    obtain rfl : sign = outer := Option.some.inj houter
    exact hsign.ge
  levels_le := max_le h.levels_le (Nat.succ_le_succ hright.levels_le)

/-- The line of the script has its value if the script is not nested too deeply. -/
theorem calculate_eq (h : s.AmountsTo p n cs x) (hlevels : n < maxDepth) (spaces : Nat) :
    calculate (String.ofList (cs ++ List.replicate spaces ' ')) = .ok x := by
  obtain ⟨ts, hscan, hts⟩ := s.exists_scan_line spaces
  rw [Script.line, h.chars_eq] at hscan
  have hvalues := (Token.scanFrom_eq_ok_iff.mp hscan).numbersHaveValues
  have hend : Parser.nextKind [Token.finish 0] = .exprEnd := rfl
  obtain ⟨d, hword, htree, hdepth⟩ := h.hasBrackets.derivesFrom_sum
  have hparse : parse ts = .ok s.formula.tree := by
    rw [← Parser.parse_map Token.kind_unplaced Token.value_unplaced hvalues, hts, ← hword, ← htree]
    refine (Parser.parse_of_derivation d hend).resolve_right fun hdeep => ?_
    have hle := h.levels_le
    omega
  exact calculate_of_value hscan hparse ((Expr.evaluate_eq _).trans h.value_eq)

end AmountsTo

end Script

section Leftward

variable {α : Type} {text : α → List Char} {operand : α → Binary64} {p n : Nat}

/-- Links are added one by one to what has been put together so far. -/
theorem Script.AmountsTo.exists_links {s : Script} {cs : List Char} {x : Binary64}
    (h : s.AmountsTo p (n + 1) cs x) {links : List (Link α)}
    (hlinks : ∀ k ∈ links, k.sign.precedence = p ∧
      ∃ r : Script, r.AmountsTo (p + 1) n (text k.right) (operand k.right)) :
    ∃ s' : Script, s'.AmountsTo p (n + 1)
      (cs ++ links.flatMap fun k => List.replicate k.gap ' ' ++ k.sign.char :: text k.right)
      (links.foldl (fun x k => k.sign.apply x (operand k.right)) x) := by
  induction links generalizing s cs x with
  | nil => exact ⟨s, by simpa using h⟩
  | cons k links ih =>
      obtain ⟨⟨hsign, r, hr⟩, hlinks⟩ := List.forall_mem_cons.mp hlinks
      obtain ⟨s', hs'⟩ := ih (h.binary hsign hr k.gap) hlinks
      exact ⟨s', by simpa using hs'⟩

/-- **A chain leans to the left.**  From what amounts to its operands, something is put together
that amounts to the chain and needs one more level. -/
theorem Chain.exists_script {c : Chain α}
    (h : c.IsOf p fun a => ∃ r : Script, r.AmountsTo (p + 1) n (text a) (operand a)) :
    ∃ s : Script, s.AmountsTo p (n + 1) (c.chars text) (c.value operand) := by
  obtain ⟨⟨seed, hseed⟩, hlinks⟩ := h
  exact (hseed.outward (Nat.le_succ p) (Nat.le_succ n)).exists_links hlinks

end Leftward

/-- **A chain of numbers is calculated term by term.**  Its line has a value, whatever its length
and its spaces: each term is multiplied out from left to right, and then the terms are added up
from left to right. -/
theorem calculate_chain (c : Chain Factor) (spaces : Nat) :
    calculate (c.line spaces) = .ok (c.terms.value Term.value) := by
  have hterms : c.terms.IsOf 1 fun t => t.IsOf 2 fun _ => True := Chain.cut_isOf _ _
  have hfactor (a : Factor) (p n : Nat) : ∃ s : Script, s.AmountsTo p n a.chars a.value :=
    ⟨_, .number a.spaces a.numeral p n⟩
  have hterm (t : Term) (ht : t.IsOf 2 fun _ => True) :
      ∃ s : Script, s.AmountsTo 2 1 t.chars t.value :=
    Chain.exists_script ⟨hfactor _ _ _, fun k hk => ⟨(ht.2 k hk).1, hfactor _ _ _⟩⟩
  have hchain : c.terms.IsOf 1 fun t => ∃ s : Script, s.AmountsTo 2 1 t.chars t.value :=
    ⟨hterm _ hterms.1, fun k hk => ⟨(hterms.2 k hk).1, hterm _ (hterms.2 k hk).2⟩⟩
  obtain ⟨s, hs⟩ := Chain.exists_script hchain
  rw [Chain.terms, Chain.cut_chars] at hs
  exact hs.calculate_eq (by decide) spaces

/-- The terms of `8 -4/2*2` are a number and a quotient that is multiplied. -/
example :
    let eight : Numeral := ⟨['8'], ⟨by simp, by simp [isNumeric]⟩, ⟨⟨'8', by decide⟩, by decide⟩⟩
    let four : Numeral := ⟨['4'], ⟨by simp, by simp [isNumeric]⟩, ⟨⟨'4', by decide⟩, by decide⟩⟩
    let two : Numeral := ⟨['2'], ⟨by simp, by simp [isNumeric]⟩, ⟨⟨'2', by decide⟩, by decide⟩⟩
    let factors : List (Link Factor) := [⟨0, .slash, ⟨0, two⟩⟩, ⟨0, .star, ⟨0, two⟩⟩]
    let c : Chain Factor := ⟨⟨0, eight⟩, ⟨1, .minus, ⟨0, four⟩⟩ :: factors⟩
    c.line 0 = "8 -4/2*2" ∧ c.terms = ⟨⟨⟨0, eight⟩, []⟩, [⟨1, .minus, ⟨⟨0, four⟩, factors⟩⟩]⟩ :=
  ⟨rfl, rfl⟩

end Abacus
