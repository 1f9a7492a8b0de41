import LineCalculator.Proofs.Divisors
import LineCalculator.Proofs.Writing

namespace LineCalculator

inductive Tree where
  | number (extra : Nat) (x : Numeral.Spelling)
  | sum (extra : Nat) (a : Tree) (op : AddOp) (b : Tree)
  | product (extra : Nat) (a : Tree) (op : MulOp) (b : Tree)

namespace Tree

def paired : Nat → List Word → List Word
  | 0, ws => ws
  | n + 1, ws => .lparen :: (paired n ws ++ [.rparen])

/-- All pairs around a tree. A sum needs one as a right operand of a sum and as any operand of a
product, and a product needs one as a right operand of a product. -/
def pairs (g : Goal) : Tree → Nat
  | .number extra _ => extra
  | .sum extra _ _ _ => if g = .expression then extra else extra + 1
  | .product extra _ _ _ => if g = .factor then extra + 1 else extra

def words : Tree → Goal → List Word
  | .number extra x, g => paired (pairs g (.number extra x)) [.number x]
  | .sum extra a op b, g => paired (pairs g (.sum extra a op b))
      (a.words .expression ++ .additive op :: b.words .term)
  | .product extra a op b, g => paired (pairs g (.product extra a op b))
      (a.words .term ++ .multiplicative op :: b.words .factor)

def value : Tree → Float
  | .number _ x => Numeral.value x.1
  | .sum _ a op b => op.combine a.value b.value
  | .product _ a op b => op.combine a.value b.value

def divisors : Tree → Goal → List Divisor
  | .number _ _, _ => []
  | .sum extra a op b, g =>
      (a.divisors .expression ++
        (b.divisors .term).map (Divisor.later ((a.words .expression).length + 1))).map
          (Divisor.later (pairs g (.sum extra a op b)))
  | .product extra a op b, g =>
      (a.divisors .term ++
        ((b.divisors .factor).map (Divisor.later ((a.words .term).length + 1)) ++
          op.divisor ((a.words .term).length + 1) b.value)).map
            (Divisor.later (pairs g (.product extra a op b)))

def Derives (g : Goal) (ws : List Word) (v : Float) (ds : List Divisor) : Prop :=
  ∃ p : Phrase g, p.symbols = ws.map Word.symbol ∧ p.value = v ∧ p.divisors = ds

namespace Derives

variable {g : Goal} {ws us : List Word} {v a b : Float} {ds es : List Divisor}

theorem number (x : Numeral.Spelling) : Derives .factor [.number x] (Numeral.value x.1) [] :=
  ⟨.number (Numeral.value x.1), rfl, rfl, rfl⟩

theorem group (h : Derives .expression ws v ds) :
    Derives .factor (.lparen :: (ws ++ [.rparen])) v (ds.map (Divisor.later 1)) := by
  obtain ⟨e, hs, rfl, rfl⟩ := h
  exact ⟨.group e, by simp [Phrase.symbols, hs, Word.symbol], rfl, rfl⟩

theorem ofFactor (h : Derives .factor ws v ds) (g : Goal) : Derives g ws v ds := by
  obtain ⟨f, hs, hv, hd⟩ := h
  cases g with
  | factor => exact ⟨f, hs, hv, hd⟩
  | term => exact ⟨.single f, hs, hv, hd⟩
  | expression => exact ⟨.lone (.single f), hs, hv, hd⟩

theorem sum (h : Derives .expression ws a ds) (op : AddOp) (h' : Derives .term us b es) :
    Derives .expression (ws ++ .additive op :: us) (op.combine a b)
      (ds ++ es.map (Divisor.later (ws.length + 1))) := by
  obtain ⟨e, hs, rfl, rfl⟩ := h
  obtain ⟨t, hs', rfl, rfl⟩ := h'
  refine ⟨.added e op t, by simp [Phrase.symbols, hs, hs', Word.symbol], rfl, ?_⟩
  rw [Phrase.divisors, hs, List.length_map]

theorem product (h : Derives .term ws a ds) (op : MulOp) (h' : Derives .factor us b es) :
    Derives .term (ws ++ .multiplicative op :: us) (op.combine a b)
      (ds ++ (es.map (Divisor.later (ws.length + 1)) ++
        op.divisor (ws.length + 1) b)) := by
  obtain ⟨t, hs, rfl, rfl⟩ := h
  obtain ⟨f, hs', rfl, rfl⟩ := h'
  refine ⟨.multiplied t op f, by simp [Phrase.symbols, hs, hs', Word.symbol], rfl, ?_⟩
  rw [Phrase.divisors, hs, List.length_map]

theorem paired_succ (h : Derives .expression ws v ds) (n : Nat) (g : Goal) :
    Derives g (paired (n + 1) ws) v (ds.map (Divisor.later (n + 1))) := by
  induction n generalizing g with
  | zero => exact h.group.ofFactor g
  | succ n ih =>
      have hgroup := (ih .expression).group
      simp only [List.map_map, Function.comp_def, Divisor.later_later] at hgroup
      exact hgroup.ofFactor g

theorem map_later_zero (ds : List Divisor) : ds.map (Divisor.later 0) = ds :=
  List.map_id ds

theorem paired (h : Derives g ws v ds) (he : Derives .expression ws v ds) (n : Nat) :
    Derives g (paired n ws) v (ds.map (Divisor.later n)) := by
  cases n with
  | zero => rwa [map_later_zero]
  | succ n => exact he.paired_succ n g

end Derives

end Tree

def NumbersApart (ws : List Word) : Prop :=
  ws.IsChain fun a b => ∀ gap, a.Parted gap b

section Apart

variable {ws us : List Word} {a : Word}

theorem NumbersApart.append_cons (hws : NumbersApart ws) (hus : NumbersApart us)
    (ha : ∀ x, a ≠ .number x) : NumbersApart (ws ++ a :: us) := by
  have hbefore (b : Word) (gap : Blanks) : b.Parted gap a := by
    cases a with
    | number x => exact absurd rfl (ha x)
    | _ => cases b <;> trivial
  have hbehind (b : Word) (gap : Blanks) : a.Parted gap b := by
    cases a with
    | number x => exact absurd rfl (ha x)
    | _ => trivial
  refine List.isChain_append.2 ⟨hws, List.isChain_cons.2 ⟨fun b _ => hbehind b, hus⟩, ?_⟩
  intro b _ c hc
  cases hc
  exact hbefore b

theorem NumbersApart.paired (h : NumbersApart ws) (n : Nat) : NumbersApart (Tree.paired n ws) := by
  induction n with
  | zero => exact h
  | succ n ih =>
      have hclosed : NumbersApart (Tree.paired n ws ++ [.rparen]) :=
        ih.append_cons List.isChain_nil (by simp)
      have hnone : NumbersApart [] := List.isChain_nil
      exact hnone.append_cons hclosed (a := .lparen) (by simp)

end Apart

end LineCalculator
