import Mathlib.Data.List.Pairwise

/-!
# Hash-linked chains

Blocks that name their parent by digest and carry a height. `Linked d l` says
that the blocks of `l` hang one after another from `d`; `Chain d n l` adds that
their heights run on from `n`. Both are read from the front, so a chain that is
found by walking back from its last block grows by one `Linked` step at the
front, and a chain that is executed grows by `chain_append` at the back.
-/

namespace HashChain

/-- What a chain needs to know about its blocks. -/
structure Links (β δ : Type*) where
  digest : β → δ
  parent : β → δ
  height : β → Nat

variable {β δ : Type*} (L : Links β δ)

def Linked : δ → List β → Prop
  | _, [] => True
  | d, b :: rest => L.parent b = d ∧ Linked (L.digest b) rest

def Chain : δ → Nat → List β → Prop
  | _, _, [] => True
  | d, n, b :: rest => L.parent b = d ∧ L.height b = n + 1 ∧ Chain (L.digest b) (n + 1) rest

/-- The digest and the height at the end of a chain from `d` at height `n`. -/
def tip (d : δ) (n : Nat) (l : List β) : δ × Nat :=
  match l.getLast? with
  | none => (d, n)
  | some b => (L.digest b, L.height b)

@[simp] theorem tip_nil (d : δ) (n : Nat) : tip L d n [] = (d, n) := rfl

@[simp] theorem tip_append (d : δ) (n : Nat) (l : List β) (b : β) :
    tip L d n (l ++ [b]) = (L.digest b, L.height b) := by
  simp [tip]

variable {L}

theorem tip_cons {d : δ} {n : Nat} {b : β} {rest : List β} (h : L.height b = n + 1) :
    tip L d n (b :: rest) = tip L (L.digest b) (n + 1) rest := by
  cases rest with
  | nil => simp [tip, h]
  | cons x l => simp [tip, List.getLast?_cons]

/-- One more block at the end. -/
theorem chain_append {b : β} : ∀ {l : List β} {d : δ} {n : Nat}, Chain L d n l →
    L.parent b = (tip L d n l).1 → L.height b = (tip L d n l).2 + 1 → Chain L d n (l ++ [b])
  | [], _, _, _, hparent, hheight => ⟨hparent, hheight, trivial⟩
  | x :: rest, d, n, ⟨hx, hheight, hrest⟩, hparent, hb => by
    rw [tip_cons hheight] at hparent hb
    exact ⟨hx, hheight, chain_append hrest hparent hb⟩

/-- The last block of a chain. -/
theorem Chain.of_append {b : β} : ∀ {l : List β} {d : δ} {n : Nat}, Chain L d n (l ++ [b]) →
    Chain L d n l ∧ L.parent b = (tip L d n l).1 ∧ L.height b = (tip L d n l).2 + 1
  | [], _, _, ⟨hparent, hheight, _⟩ => ⟨trivial, hparent, hheight⟩
  | x :: rest, d, n, ⟨hx, hheight, hrest⟩ => by
    obtain ⟨hchain, htip⟩ := Chain.of_append hrest
    rw [tip_cons hheight]
    exact ⟨⟨hx, hheight, hchain⟩, htip⟩

/-- Two chains, one on top of the other. -/
theorem Chain.append : ∀ {l l' : List β} {d : δ} {n : Nat}, Chain L d n l →
    Chain L (tip L d n l).1 (tip L d n l).2 l' → Chain L d n (l ++ l')
  | [], _, _, _, _, h => h
  | x :: rest, l', d, n, ⟨hx, hheight, hrest⟩, h => by
    rw [tip_cons hheight] at h
    exact ⟨hx, hheight, hrest.append h⟩

theorem Chain.tip_append : ∀ {l l' : List β} {d : δ} {n : Nat}, Chain L d n l →
    tip L d n (l ++ l') = tip L (tip L d n l).1 (tip L d n l).2 l'
  | [], _, _, _, _ => rfl
  | x :: rest, l', d, n, ⟨_, hheight, hrest⟩ => by
    rw [List.cons_append, tip_cons hheight, tip_cons hheight]
    exact hrest.tip_append

theorem Chain.lt_height : ∀ {l : List β} {d : δ} {n : Nat}, Chain L d n l →
    ∀ b ∈ l, n < L.height b
  | x :: rest, _, n, ⟨_, hheight, hrest⟩, b, hb => by
    rcases List.mem_cons.mp hb with rfl | hb
    · omega
    · have := Chain.lt_height hrest b hb
      omega

/-- There is one block to a height. -/
theorem Chain.eq_of_height : ∀ {l : List β} {d : δ} {n : Nat}, Chain L d n l →
    ∀ b ∈ l, ∀ b' ∈ l, L.height b = L.height b' → b = b'
  | x :: rest, _, n, ⟨_, hheight, hrest⟩, b, hb, b', hb', heq => by
    rcases List.mem_cons.mp hb with rfl | hin
    · rcases List.mem_cons.mp hb' with rfl | hin'
      · rfl
      · have := hrest.lt_height b' hin'
        omega
    · rcases List.mem_cons.mp hb' with rfl | hin'
      · have := hrest.lt_height b hin
        omega
      · exact hrest.eq_of_height b hin b' hin' heq

/-- Heights only go up, so no block occurs twice. -/
theorem Chain.nodup : ∀ {l : List β} {d : δ} {n : Nat}, Chain L d n l → l.Nodup
  | [], _, _, _ => List.nodup_nil
  | x :: rest, _, n, ⟨_, hheight, hrest⟩ => by
    refine List.nodup_cons.mpr ⟨fun hmem => ?_, hrest.nodup⟩
    have := hrest.lt_height x hmem
    omega

end HashChain
