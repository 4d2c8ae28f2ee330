/-
Proofs of merged mining.

Work on a parent chain counts on an auxiliary chain if the parent's coinbase
commits to the auxiliary block.  The proof has the coinbase, the branch from it to
the root in the parent's header, the branch from the auxiliary block to the root
that is committed to (blocks of several auxiliary chains can share one), and the
header itself.

A branch is climbed from a leaf at an index: its bits say on which side each
sibling stands.
-/
import DogeConnect.Lib.TxFormat

namespace MergedProof

open PrefixCode TxFormat

abbrev Branch := Short (2 ^ 64) (Bytes 32)

structure Proof where
  coinbase : Tx
  parentHash : Bytes 32
  branch : Branch
  index : Fin (256 ^ 4)
  chainBranch : Branch
  chainIndex : Fin (256 ^ 4)
  header : Bytes 80

def branch : PrefixCode UInt8 Branch := counted compactSize (symbol.many 32)

def proof : PrefixCode UInt8 Proof :=
  (tx.seq ((symbol.many 32).seq (branch.seq ((le 4).seq (branch.seq ((le 4).seq
    (symbol.many 80))))))).iso {
    toFun := fun p => ⟨p.1, p.2.1, p.2.2.1, p.2.2.2.1, p.2.2.2.2.1, p.2.2.2.2.2.1, p.2.2.2.2.2.2⟩
    invFun := fun p => (p.coinbase, p.parentHash, p.branch, p.index, p.chainBranch, p.chainIndex,
      p.header)
    left_inv := fun _ => rfl
    right_inv := fun _ => rfl }

/-- A branch without its length. -/
def Branch.text (b : Branch) : List UInt8 := b.1.flatMap Subtype.val

theorem encode_branch (b : Branch) : branch.encode b = sizeText b.1.length ++ b.text := by
  have hself : b.1.flatMap (symbol.many 32).encode = b.text := by
    apply List.flatMap_congr
    intro node _
    exact List.flatMap_singleton' node.1
  change sizeText b.1.length ++ b.1.flatMap (symbol.many 32).encode = _
  rw [hself]

theorem encode_proof (p : Proof) : proof.encode p = tx.encode p.coinbase ++ (p.parentHash.1
    ++ (branch.encode p.branch ++ (leText 4 p.index.1 ++ (branch.encode p.chainBranch
      ++ (leText 4 p.chainIndex.1 ++ p.header.1))))) := by
  have hself {n : Nat} (bs : Bytes n) : (symbol.many n).encode bs = bs.1 :=
    List.flatMap_singleton' bs.1
  rw [← encode_le p.index, ← encode_le p.chainIndex, ← hself p.parentHash, ← hself p.header]
  rfl

/-! ## What a proof shows -/

/-- The root over a leaf. -/
def climb (combine : List UInt8 → List UInt8 → List UInt8) : Nat → List UInt8 → List (Bytes 32) →
    List UInt8
  | _, hash, [] => hash
  | index, hash, node :: nodes =>
      climb combine (index / 2)
        (if index % 2 = 0 then combine hash node.1 else combine node.1 hash) nodes

theorem climb_zero (combine : List UInt8 → List UInt8 → List UInt8) (hash : List UInt8)
    (nodes : List (Bytes 32)) :
    climb combine 0 hash nodes = (nodes.map Subtype.val).foldl combine hash := by
  induction nodes generalizing hash with
  | nil => rfl
  | cons node nodes ih =>
      rw [climb, if_pos rfl, ih]
      rfl

/-- The proof ties the auxiliary block with the hash `auxHash`, written as it is
displayed, to the parent header.  `marker` stands in front of the committed root,
the number of leaves and a nonce behind it. -/
structure Ties (digest : List UInt8 → List UInt8) (marker : List UInt8) (auxHash : List UInt8)
    (p : Proof) : Prop where
  /-- The coinbase is the parent's first transaction. -/
  first : p.index.1 = 0
  parent : climb (fun l r => digest (l ++ r)) p.index.1 (digest (tx.encode p.coinbase.strip))
    p.branch.1 = (p.header.1.drop 36).take 32
  committed : ∃ input, p.coinbase.ins.head? = some input ∧ ∃ front nonce back,
    input.script.1 = front ++ (marker
      ++ (climb (fun l r => digest (l ++ r)) p.chainIndex.1 auxHash.reverse p.chainBranch.1).reverse
      ++ leText 4 (2 ^ p.chainBranch.1.length) ++ leText 4 nonce) ++ back
  /-- The leaf is one of the tree's. -/
  slot : p.chainIndex.1 < 2 ^ p.chainBranch.1.length

end MergedProof
