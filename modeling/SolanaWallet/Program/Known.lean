import SolanaWallet.Address

/-!
# Well-known addresses

The programs and system variables that instructions refer to.  They are the
same on every network, so they are constants, given by their bytes.
-/

namespace SolanaWallet.Known

/-- The address of the system program: transfers, account creation and nonces:
`11111111111111111111111111111111`. -/
def system : Address :=
  ⟨⟨[0x00, 0x00, 0x00, 0x00, 0x00, 0x00, 0x00, 0x00,
     0x00, 0x00, 0x00, 0x00, 0x00, 0x00, 0x00, 0x00,
     0x00, 0x00, 0x00, 0x00, 0x00, 0x00, 0x00, 0x00,
     0x00, 0x00, 0x00, 0x00, 0x00, 0x00, 0x00, 0x00], rfl⟩⟩

/-- The address of the stake program:
`Stake11111111111111111111111111111111111111`. -/
def stake : Address :=
  ⟨⟨[0x06, 0xa1, 0xd8, 0x17, 0x91, 0x37, 0x54, 0x2a,
     0x98, 0x34, 0x37, 0xbd, 0xfe, 0x2a, 0x7a, 0xb2,
     0x55, 0x7f, 0x53, 0x5c, 0x8a, 0x78, 0x72, 0x2b,
     0x68, 0xa4, 0x9d, 0xc0, 0x00, 0x00, 0x00, 0x00], rfl⟩⟩

/-- The address of the configuration account of the stake program:
`StakeConfig11111111111111111111111111111111`. -/
def stakeConfig : Address :=
  ⟨⟨[0x06, 0xa1, 0xd8, 0x17, 0xa5, 0x02, 0x05, 0x0b,
     0x68, 0x07, 0x91, 0xe6, 0xce, 0x6d, 0xb8, 0x8e,
     0x1e, 0x5b, 0x71, 0x50, 0xf6, 0x1f, 0xc6, 0x79,
     0x0a, 0x4e, 0xb4, 0xd1, 0x00, 0x00, 0x00, 0x00], rfl⟩⟩

/-- The address of the token program:
`TokenkegQfeZyiNwAJbNbGKPFXCWuBvf9Ss623VQ5DA`. -/
def token : Address :=
  ⟨⟨[0x06, 0xdd, 0xf6, 0xe1, 0xd7, 0x65, 0xa1, 0x93,
     0xd9, 0xcb, 0xe1, 0x46, 0xce, 0xeb, 0x79, 0xac,
     0x1c, 0xb4, 0x85, 0xed, 0x5f, 0x5b, 0x37, 0x91,
     0x3a, 0x8c, 0xf5, 0x85, 0x7e, 0xff, 0x00, 0xa9], rfl⟩⟩

/-- The address of the second token program:
`TokenzQdBNbLqP5VEhdkAS6EPFLC1PHnBqCXEpPxuEb`. -/
def token2022 : Address :=
  ⟨⟨[0x06, 0xdd, 0xf6, 0xe1, 0xee, 0x75, 0x8f, 0xde,
     0x18, 0x42, 0x5d, 0xbc, 0xe4, 0x6c, 0xcd, 0xda,
     0xb6, 0x1a, 0xfc, 0x4d, 0x83, 0xb9, 0x0d, 0x27,
     0xfe, 0xbd, 0xf9, 0x28, 0xd8, 0xa1, 0x8b, 0xfc], rfl⟩⟩

/-- The address of the program that creates associated token accounts:
`ATokenGPvbdGVxr1b2hvZbsiqW5xWH25efTNsLJA8knL`. -/
def associatedToken : Address :=
  ⟨⟨[0x8c, 0x97, 0x25, 0x8f, 0x4e, 0x24, 0x89, 0xf1,
     0xbb, 0x3d, 0x10, 0x29, 0x14, 0x8e, 0x0d, 0x83,
     0x0b, 0x5a, 0x13, 0x99, 0xda, 0xff, 0x10, 0x84,
     0x04, 0x8e, 0x7b, 0xd8, 0xdb, 0xe9, 0xf8, 0x59], rfl⟩⟩

/-- The address of the memo program:
`MemoSq4gqABAXKb96qnH8TysNcWxMyWCqXgDLGmfcHr`. -/
def memo : Address :=
  ⟨⟨[0x05, 0x4a, 0x53, 0x5a, 0x99, 0x29, 0x21, 0x06,
     0x4d, 0x24, 0xe8, 0x71, 0x60, 0xda, 0x38, 0x7c,
     0x7c, 0x35, 0xb5, 0xdd, 0xbc, 0x92, 0xbb, 0x81,
     0xe4, 0x1f, 0xa8, 0x40, 0x41, 0x05, 0x44, 0x8d], rfl⟩⟩

/-- The address of the compute budget program:
`ComputeBudget111111111111111111111111111111`. -/
def computeBudget : Address :=
  ⟨⟨[0x03, 0x06, 0x46, 0x6f, 0xe5, 0x21, 0x17, 0x32,
     0xff, 0xec, 0xad, 0xba, 0x72, 0xc3, 0x9b, 0xe7,
     0xbc, 0x8c, 0xe5, 0xbb, 0xc5, 0xf7, 0x12, 0x6b,
     0x2c, 0x43, 0x9b, 0x3a, 0x40, 0x00, 0x00, 0x00], rfl⟩⟩

/-- The address of the system variable that holds the rent:
`SysvarRent111111111111111111111111111111111`. -/
def rent : Address :=
  ⟨⟨[0x06, 0xa7, 0xd5, 0x17, 0x19, 0x2c, 0x5c, 0x51,
     0x21, 0x8c, 0xc9, 0x4c, 0x3d, 0x4a, 0xf1, 0x7f,
     0x58, 0xda, 0xee, 0x08, 0x9b, 0xa1, 0xfd, 0x44,
     0xe3, 0xdb, 0xd9, 0x8a, 0x00, 0x00, 0x00, 0x00], rfl⟩⟩

/-- The address of the system variable that holds the clock:
`SysvarC1ock11111111111111111111111111111111`. -/
def clock : Address :=
  ⟨⟨[0x06, 0xa7, 0xd5, 0x17, 0x18, 0xc7, 0x74, 0xc9,
     0x28, 0x56, 0x63, 0x98, 0x69, 0x1d, 0x5e, 0xb6,
     0x8b, 0x5e, 0xb8, 0xa3, 0x9b, 0x4b, 0x6d, 0x5c,
     0x73, 0x55, 0x5b, 0x21, 0x00, 0x00, 0x00, 0x00], rfl⟩⟩

/-- The address of the system variable that holds the stake history:
`SysvarStakeHistory1111111111111111111111111`. -/
def stakeHistory : Address :=
  ⟨⟨[0x06, 0xa7, 0xd5, 0x17, 0x19, 0x35, 0x84, 0xd0,
     0xfe, 0xed, 0x9b, 0xb3, 0x43, 0x1d, 0x13, 0x20,
     0x6b, 0xe5, 0x44, 0x28, 0x1b, 0x57, 0xb8, 0x56,
     0x6c, 0xc5, 0x37, 0x5f, 0xf4, 0x00, 0x00, 0x00], rfl⟩⟩

/-- The address of the system variable that holds recent blockhashes:
`SysvarRecentB1ockHashes11111111111111111111`. -/
def recentBlockhashes : Address :=
  ⟨⟨[0x06, 0xa7, 0xd5, 0x17, 0x19, 0x2c, 0x56, 0x8e,
     0xe0, 0x8a, 0x84, 0x5f, 0x73, 0xd2, 0x97, 0x88,
     0xcf, 0x03, 0x5c, 0x31, 0x45, 0xb2, 0x1a, 0xb3,
     0x44, 0xd8, 0x06, 0x2e, 0xa9, 0x40, 0x00, 0x00], rfl⟩⟩

end SolanaWallet.Known
