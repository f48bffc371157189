import SolanaWallet.DerivedAddress
import SolanaWallet.Program.System

/-!
# The stake program

A stake account holds lamports and delegates them to a validator.  `deposit`
opens one in three instructions: create, authorize, delegate.
-/

namespace SolanaWallet.StakeProgram

open AccountMeta

/-- The space of a stake account. -/
def accountSpace : UInt64 := 200

/-- Until when, and without whose consent, nothing can be withdrawn. -/
structure Lockup where
  unixTimestamp : Int64 := 0
  epoch : UInt64 := 0
  custodian : Address := Known.system

/-- An instruction of the stake program: its number, arguments and accounts. -/
def call (number : UInt32) (arguments : List UInt8) (accounts : List AccountMeta) : Instruction :=
  { program := Known.stake, accounts, data := bytes32 number ++ arguments }

/-- Says who may delegate and who may withdraw. -/
def authorize (stake staker withdrawer : Address) (lockup : Lockup) : Instruction :=
  call 0
    (staker.bytes ++ withdrawer.bytes ++ bytes64 lockup.unixTimestamp.toUInt64 ++
      bytes64 lockup.epoch ++ lockup.custodian.bytes)
    [write stake, read Known.rent]

/-- Delegates the stake to the validator with the given vote account. -/
def delegate (stake authority vote : Address) : Instruction :=
  call 2 []
    [write stake, read vote, read Known.clock, read Known.stakeHistory, read Known.stakeConfig,
      readSigned authority]

/-- Ends the delegation. -/
def deactivate (stake authority : Address) : Instruction :=
  call 5 [] [write stake, read Known.clock, readSigned authority]

/-- Moves lamports out of a stake account.  While it is locked up the custodian
signs too. -/
def withdraw (stake withdrawer target : Address) (lamports : UInt64)
    (custodian : Option Address) : Instruction :=
  call 4 (bytes64 lamports)
    ([write stake, write target, read Known.clock, read Known.stakeHistory,
      readSigned withdrawer] ++ custodian.toList.map readSigned)

/-- Funds a new stake account and delegates it to `vote`.  The account is
created with the blockhash's text as seed; unless another address is given it
is the one derived from that seed.  The sender may delegate and withdraw, and
there is no lockup. -/
def deposit (suite : CryptoSuite) (sender vote : Address) (lamports : UInt64)
    (blockhash : Blockhash) (account : Option Address) : List Instruction :=
  let stake := account.getD (DerivedAddress.ofBlockhash suite sender blockhash Known.stake)
  let seed := DerivedAddress.seedOfText blockhash.text
  [SystemProgram.createAccountWithSeed sender stake sender seed.bytes lamports accountSpace
      Known.stake,
    authorize stake sender sender {},
    delegate stake sender vote]

end SolanaWallet.StakeProgram
