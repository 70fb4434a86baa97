import LibOp.Foundation.ImplicitTree

namespace LibOp.Merkle

open Foundation

abbrev Fingerprint := Vector UInt8 16

def merkleXor (a b : Fingerprint) : Fingerprint := Vector.zipWith (· ^^^ ·) a b

def noFingerprint : Fingerprint := Vector.replicate 16 0

/-- `OP_MERKLE_LEAVES` for the depth the library is compiled with. -/
def merkleLeaves (depth : Nat) : Nat := 2 ^ depth

structure MerkleTree where
  nodes : Nat → Fingerprint
  tsMin : UInt64
  tsMax : UInt64
  count : Nat

def merkleInit (tsMin tsMax : UInt64) : MerkleTree := ⟨fun _ => noFingerprint, tsMin, tsMax, 0⟩

variable (depth : Nat)

def merkleLeafIndex (tsMin tsMax ts : UInt64) : Nat :=
  if ts ≤ tsMin then 0
  else if ts ≥ tsMax then merkleLeaves depth - 1
  else
    let range := tsMax - tsMin
    let offset := ts - tsMin
    let bucket := offset.toNat * merkleLeaves depth % 2 ^ 64 / range.toNat % 2 ^ 32
    if bucket ≥ merkleLeaves depth then merkleLeaves depth - 1 else bucket

def merkleInsert (m : MerkleTree) (ts : UInt64) (id : Fingerprint) : MerkleTree :=
  let idx := merkleLeaves depth + merkleLeafIndex depth m.tsMin m.tsMax ts
  { m with
    nodes := refresh merkleXor (idx / 2) (Function.update m.nodes idx (merkleXor (m.nodes idx) id)) (idx / 2)
    count := (m.count + 1) % 2 ^ 32 }

def merkleNodeEqual (a b : MerkleTree) (idx : Nat) : Bool := decide (a.nodes idx = b.nodes idx)

def merkleRootEqual (a b : MerkleTree) : Bool := merkleNodeEqual a b 1

/-- `stack[sp++] = node` where the fingerprints differ: no result without room. -/
def merklePush (a b : MerkleTree) (stack : List Nat) (node : Nat) : Option (List Nat) :=
  if merkleNodeEqual a b node then some stack
  else if stack.length < merkleLeaves depth then some (node :: stack) else none

/-- The loop of `op_merkle_diff`, without result after too many rounds. -/
def merkleDiffLoop (a b : MerkleTree) (maxDiff : Nat) : Nat → List Nat → List Nat → Option (List Nat)
  | 0, _, _ => none
  | _ + 1, [], found => some found
  | rounds + 1, node :: stack, found =>
    if found.length < maxDiff then
      if node ≥ merkleLeaves depth then
        merkleDiffLoop a b maxDiff rounds stack
          (if merkleNodeEqual a b node then found else found ++ [node - merkleLeaves depth])
      else do
        let withRight ← merklePush depth a b stack (node * 2 + 1)
        let withLeft ← merklePush depth a b withRight (node * 2)
        merkleDiffLoop a b maxDiff rounds withLeft found
    else some found

/-- The leaves written to `diff_leaves`. -/
def merkleDiff (mkLocal mkRemote : MerkleTree) (maxDiff : Nat) : Option (List Nat) :=
  if merkleNodeEqual mkLocal mkRemote 1 then some []
  else merkleDiffLoop depth mkLocal mkRemote maxDiff (2 * merkleLeaves depth) [1] []

structure MerkleEvent where
  ts : UInt64
  id : Fingerprint

def merkleBuild (tsMin tsMax : UInt64) (events : List MerkleEvent) : MerkleTree :=
  events.foldl (fun m e => merkleInsert depth m e.ts e.id) (merkleInit tsMin tsMax)

lemma merkleXor_assoc (a b c : Fingerprint) : merkleXor (merkleXor a b) c = merkleXor a (merkleXor b c) := by
  ext i bound
  simp [merkleXor, UInt8.xor_assoc]

lemma merkleXor_comm (a b : Fingerprint) : merkleXor a b = merkleXor b a := by
  ext i bound
  simp [merkleXor, UInt8.xor_comm]

lemma noFingerprint_xor (a : Fingerprint) : merkleXor noFingerprint a = a := by
  ext i bound
  simp [merkleXor, noFingerprint]

instance : Std.Associative merkleXor := ⟨merkleXor_assoc⟩

instance : Std.Commutative merkleXor := ⟨merkleXor_comm⟩

instance : Std.LawfulIdentity merkleXor noFingerprint where
  left_id := noFingerprint_xor
  right_id a := (merkleXor_comm a noFingerprint).trans (noFingerprint_xor a)

lemma merkleLeaves_pos : 0 < merkleLeaves depth := Nat.two_pow_pos depth

lemma merkleLeafIndex_lt (tsMin tsMax ts : UInt64) : merkleLeafIndex depth tsMin tsMax ts < merkleLeaves depth := by
  have pos := merkleLeaves_pos depth
  simp only [merkleLeafIndex]
  split
  · exact pos
  · split
    · omega
    · split <;> omega

end LibOp.Merkle
