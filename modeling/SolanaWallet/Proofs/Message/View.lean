import SolanaWallet.Message.Basic

/-!
# What a message says

An index means something only together with the table of its message: it
refers to a key, or to a place among the loaded accounts.  `Message.view` is
the list of instructions in these terms.  Messages are compared by their views,
whether one is an edit of the other or a message is held against the
instructions it was compiled from.
-/

namespace SolanaWallet

/-- What an index refers to: a key of the table, or an account that is loaded
from a lookup table, by its place among all that are. -/
inductive Reference where
  | key (address : Address)
  | loaded (position : Nat)
deriving DecidableEq

/-- An instruction with what its indices refer to. -/
structure ResolvedInstruction where
  program : Reference
  accounts : List Reference
  data : List UInt8
deriving DecidableEq

namespace Message

/-- What an index refers to in the message. -/
def resolve (m : Message) (index : UInt8) : Reference :=
  match m.keys[index.toNat]? with
  | some address => .key address
  | none => .loaded (index.toNat - m.keys.length)

/-- The instruction with what its indices refer to in the message. -/
def resolved (m : Message) (ix : CompiledInstruction) : ResolvedInstruction where
  program := m.resolve ix.program
  accounts := ix.accounts.map m.resolve
  data := ix.data

/-- All instructions with what their indices refer to. -/
def view (m : Message) : List ResolvedInstruction := m.instructions.map m.resolved

theorem resolve_eq_key_iff {m : Message} {index : UInt8} {a : Address} :
    m.resolve index = .key a ↔ m.keys[index.toNat]? = some a := by
  unfold resolve
  cases m.keys[index.toNat]? with
  | none => simp
  | some address => simp

end Message

end SolanaWallet
