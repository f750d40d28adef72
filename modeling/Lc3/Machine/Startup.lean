import Lc3.Memory

/-!
# Initial contents

What memory and registers hold before anything is loaded: a known word everywhere, or words that a
generator of the host draws, with a seed or without. The cells of memory-mapped input and output
always start with zero.
-/

namespace Lc3

/-! ### Generated words -/

/-- The generators of a host, and how often one was made. What a generator draws may depend on when it
was made; the words it draws are numbered from 0. -/
structure Entropy where
  /-- What a generator with a seed draws. -/
  seeded : (use seed : Nat) → Nat → Word
  /-- What a generator without a seed draws. -/
  unseeded : (use : Nat) → Nat → Word
  /-- How often a generator was made before. -/
  uses : Nat := 0

namespace Entropy

/-- The host after one more generator was made. -/
def next (e : Entropy) : Entropy := { e with uses := e.uses + 1 }

/-- The host whose generators only ever draw one word. -/
def constant (w : Word) : Entropy where
  seeded _ _ _ := w
  unseeded _ _ := w

end Entropy

/-! ### Initial words -/

/-- How memory and registers are filled at the start. -/
inductive Startup where
  | unseeded
  | seeded (seed : Nat)
  | known (word : Word)
deriving DecidableEq

namespace Startup

/-- The `i`-th initial word. -/
def word (s : Startup) (entropy : Entropy) : Nat → Word :=
  match s with
  | unseeded => entropy.unseeded entropy.uses
  | seeded seed => entropy.seeded entropy.uses seed
  | known w => fun _ => w

/-- The initial memory. -/
def memory (s : Startup) (entropy : Entropy) : Memory :=
  let w := s.word entropy
  Bank.ofFn 16 fun i => if ioStart.toNat ≤ i then 0 else w i

/-- The initial registers, which continue the sequence of the memory. -/
def registers (s : Startup) (entropy : Entropy) : RegFile :=
  let w := s.word entropy
  Bank.ofFn 3 fun i => w (65536 + i)

end Startup

end Lc3
