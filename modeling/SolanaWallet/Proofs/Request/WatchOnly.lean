import Mathlib.Data.Option.Basic
import SolanaWallet.Proofs.Request.Agreement

/-!
# Signing elsewhere needs no secrets

Whoever holds the keys of a request can replace each of them by its address and
ask for the bytes to sign: they are the bytes that would be signed with the
keys.

An account of a request is named by a key or by a text.  This is decided in
three places, and each of them looks at a valid key only for its address
(`Secret.IsValid.bind_keypair_eq`).  So two requests that name the same accounts
in different ways (`SameAccounts`) get the same bytes to sign, or fail for the
same reason.

That the bytes are also those that the keys would sign is a fact about one
request: its signed output has the message that is handed out
(`preimage_of_sign`), and the signatures in it verify over that message
(`verifies_of_sign`).
-/

namespace SolanaWallet

variable {suite : CryptoSuite}

/-! ## Secrets and their addresses -/

namespace Secret

/-- A secret that is set is one of a key. -/
def IsValid (suite : CryptoSuite) (secret : Secret) : Prop :=
  secret.isSet = true → ∃ key, Keypair.ofBytes suite secret.bytes = .ok key

/-- The address of the key of a secret. -/
def address? (suite : CryptoSuite) (secret : Secret) : Option Address :=
  if secret.isSet then (Keypair.ofBytes suite secret.bytes).toOption.map (·.address suite)
  else none

theorem isValid_empty : IsValid suite {} := by
  intro hset
  cases hset

theorem address?_empty : address? suite {} = none := rfl

/-- Any 32 bytes are the seed of a key. -/
theorem isValid_of_length {secret : Secret} (h : secret.bytes.length = 32) :
    secret.IsValid suite :=
  fun _ => ⟨⟨Block.fit 32 secret.bytes⟩, if_pos h⟩

/-- Where an account is named by its key, or else in some other way, a valid key
counts for its address only. -/
theorem IsValid.bind_keypair_eq {secret : Secret} (h : secret.IsValid suite) (field : String)
    (otherwise : Except RequestFailure Address) :
    (do
      match ← secret.keypair suite field with
      | some key => return key.address suite
      | none => otherwise) =
      match secret.address? suite with
      | some a => .ok a
      | none => otherwise := by
  by_cases hset : secret.isSet
  · obtain ⟨key, hkey⟩ := h hset
    rw [keypair, if_pos hset, address?, if_pos hset, hkey]
    rfl
  · rw [keypair, if_neg hset, address?, if_neg hset]
    rfl

end Secret

/-! ## Who takes part -/

theorem CreateNonce.address_eq {arguments : CreateNonce} (h : arguments.secret.IsValid suite) :
    arguments.address suite =
      if arguments.nonceAccount.isEmpty then
        match arguments.secret.address? suite with
        | some a => .ok a
        | none => .error (.input .noNonceAccount)
      else addressField "nonceAccount" arguments.nonceAccount := by
  rw [CreateNonce.address]
  split
  · exact h.bind_keypair_eq "nonceAccountPrivateKey" _
  · rfl

namespace Request

variable {r : Request}

theorem signerAddress_eq (h : r.privateKey.IsValid suite) :
    r.signerAddress suite =
      match r.privateKey.address? suite with
      | some a => .ok a
      | none => addressField "sender" r.sender :=
  h.bind_keypair_eq "privateKey" _

theorem feePayerAddress_eq (h : r.feePayerPrivateKey.IsValid suite) :
    r.feePayerAddress suite =
      match r.feePayerPrivateKey.address? suite with
      | some a => .ok a
      | none =>
        match filled r.feePayer with
        | some text => addressField "feePayer" text
        | none => r.signerAddress suite :=
  h.bind_keypair_eq "feePayerPrivateKey" _

end Request

/-! ## Naming the same accounts -/

/-- Kinds that differ at most in how a new nonce account is named. -/
inductive Kind.SameAccounts (suite : CryptoSuite) : Kind → Kind → Prop
  | refl (kind : Kind) : SameAccounts suite kind kind
  | createNonce {arguments arguments' : CreateNonce}
      (haddress : arguments'.address suite = arguments.address suite)
      (hrent : arguments'.rent = arguments.rent) :
      SameAccounts suite (.createNonce arguments) (.createNonce arguments')

namespace Request

/-- Requests that differ at most in how their accounts are named, and in what
does not matter before they are signed. -/
structure SameAccounts (suite : CryptoSuite) (r r' : Request) : Prop where
  signer : r'.signerAddress suite = r.signerAddress suite
  feePayer : r'.feePayerAddress suite = r.feePayerAddress suite
  kind : Option.Rel (Kind.SameAccounts suite) r.kind r'.kind
  recentBlockhash : r'.recentBlockhash = r.recentBlockhash
  nonceAccount : r'.nonceAccount = r.nonceAccount
  v0 : r'.v0 = r.v0
  unitPrice : r'.unitPrice = r.unitPrice
  unitLimit : r'.unitLimit = r.unitLimit
  rawMessage : r'.rawMessage = r.rawMessage

namespace SameAccounts

variable {r r' : Request} {kind kind' : Kind} (h : SameAccounts suite r r')

include h

theorem blockhash_eq : r'.blockhash = r.blockhash := by
  rw [blockhash, h.recentBlockhash, blockhash]

theorem nonceAddress_eq (hkind : kind.SameAccounts suite kind') :
    r'.nonceAddress kind' = r.nonceAddress kind := by
  cases hkind with
  | refl => simp only [nonceAddress, h.nonceAccount]
  | createNonce => simp only [nonceAddress, h.nonceAccount]

theorem kindInstructions_eq (hkind : kind.SameAccounts suite kind') (signer : Address) :
    r'.kindInstructions suite signer kind' = r.kindInstructions suite signer kind := by
  cases hkind with
  | refl =>
    -- besides its own arguments a kind reads at most the blockhash and the fee payer
    cases kind <;> simp only [kindInstructions, h.blockhash_eq, h.feePayer]
  | createNonce haddress hrent =>
    rw [kindInstructions_createNonce, haddress, hrent, kindInstructions_createNonce]

theorem instructions_eq : r'.instructions suite = r.instructions suite := by
  have hkind := h.kind
  unfold instructions
  generalize r.kind = given, r'.kind = given' at hkind
  cases hkind with
  | none => rfl
  | some hkind =>
    simp only [h.signer, h.nonceAddress_eq hkind, h.kindInstructions_eq hkind, opening,
      h.unitPrice, h.unitLimit]

theorem build_eq : r'.build suite = r.build suite := by
  rw [build, h.instructions_eq, h.feePayer, h.blockhash_eq, h.v0, build]

theorem buildTransaction_eq : r'.buildTransaction suite = r.buildTransaction suite := by
  simp only [buildTransaction, rawTransaction, h.rawMessage, h.recentBlockhash, h.blockhash_eq,
    h.build_eq]

theorem preimage_eq : r'.preimage suite = r.preimage suite := by
  rw [preimage, h.buildTransaction_eq, preimage]

end SameAccounts

end Request

/-! ## Replacing secrets -/

namespace CreateNonce

/-- The arguments with the address of the account in place of its key. -/
def watchOnly (suite : CryptoSuite) (arguments : CreateNonce) : CreateNonce :=
  if arguments.nonceAccount.isEmpty then
    match arguments.secret.address? suite with
    | some a => { arguments with nonceAccount := a.text, secret := {} }
    | none => arguments
  else arguments

variable {arguments : CreateNonce}

theorem rent_watchOnly (arguments : CreateNonce) :
    (arguments.watchOnly suite).rent = arguments.rent := by
  unfold watchOnly
  split
  · split <;> rfl
  · rfl

theorem address_watchOnly (h : arguments.secret.IsValid suite) :
    (arguments.watchOnly suite).address suite = arguments.address suite := by
  unfold watchOnly
  split
  · rename_i hunnamed
    cases haddress : arguments.secret.address? suite with
    | some a =>
      calc ({ arguments with nonceAccount := a.text, secret := {} } : CreateNonce).address suite
          = addressField "nonceAccount" a.text := by
            rw [address_eq Secret.isValid_empty]
            exact if_neg (by simp [isEmpty_text])
        _ = .ok a := addressField_text "nonceAccount" a
        _ = arguments.address suite := by rw [address_eq h, if_pos hunnamed, haddress]
    | none => rfl
  · rfl

theorem address_withSecret {secret : Secret} (h : arguments.secret.IsValid suite)
    (h' : secret.IsValid suite) (haddress : secret.address? suite = arguments.secret.address? suite) :
    ({ arguments with secret } : CreateNonce).address suite = arguments.address suite := by
  rw [address_eq h', haddress, address_eq h]

end CreateNonce

namespace Kind

/-- The key of a new nonce account. -/
def secret? : Kind → Option Secret
  | .createNonce arguments => some arguments.secret
  | _ => none

/-- The kind with another key of a new nonce account. -/
def withSecret (secret : Secret) : Kind → Kind
  | .createNonce arguments => .createNonce { arguments with secret }
  | kind => kind

/-- The kind with the address of a new nonce account in place of its key. -/
def watchOnly (suite : CryptoSuite) : Kind → Kind
  | .createNonce arguments => .createNonce (arguments.watchOnly suite)
  | kind => kind

theorem rel_sameAccounts_map {kind? : Option Kind} {change : Kind → Kind}
    (h : ∀ kind, kind? = some kind → kind.SameAccounts suite (change kind)) :
    Option.Rel (SameAccounts suite) kind? (kind?.map change) := by
  cases kind? with
  | none => exact .none
  | some kind => exact .some (h kind rfl)

end Kind

namespace Request

/-- The places of a request for secrets. -/
def secrets (r : Request) : List Secret :=
  [r.privateKey, r.feePayerPrivateKey] ++ (r.kind.bind Kind.secret?).toList

/-- Every secret that is set is one of a key. -/
def HasValidSecrets (suite : CryptoSuite) (r : Request) : Prop :=
  ∀ secret ∈ r.secrets, secret.IsValid suite

/-- The request with other secrets in these places. -/
def withSecrets (signer feePayer nonce : Secret) (r : Request) : Request :=
  { r with
    privateKey := signer
    feePayerPrivateKey := feePayer
    kind := r.kind.map (Kind.withSecret nonce) }

/-- The request with addresses in place of the keys that they belong to. -/
def watchOnly (suite : CryptoSuite) (r : Request) : Request :=
  { r with
    privateKey := {}
    sender :=
      match r.privateKey.address? suite with
      | some a => a.text
      | none => r.sender
    feePayerPrivateKey := {}
    feePayer :=
      match r.feePayerPrivateKey.address? suite with
      | some a => some a.text
      | none => r.feePayer
    kind := r.kind.map (Kind.watchOnly suite) }

variable {r : Request}

namespace HasValidSecrets

variable (h : r.HasValidSecrets suite)

include h

theorem signer : r.privateKey.IsValid suite :=
  h _ (by simp [secrets])

theorem feePayer : r.feePayerPrivateKey.IsValid suite :=
  h _ (by simp [secrets])

theorem nonce {arguments : CreateNonce} (hkind : r.kind = some (.createNonce arguments)) :
    arguments.secret.IsValid suite :=
  h _ (by simp [secrets, hkind, Kind.secret?])

end HasValidSecrets

theorem sameAccounts_withSecrets {signer feePayer nonce : Secret} (h : r.HasValidSecrets suite)
    (h' : (r.withSecrets signer feePayer nonce).HasValidSecrets suite)
    (haddresses : (r.withSecrets signer feePayer nonce).secrets.map (Secret.address? suite) =
      r.secrets.map (Secret.address? suite)) :
    SameAccounts suite r (r.withSecrets signer feePayer nonce) := by
  obtain ⟨hsigner, haddresses⟩ := List.cons.inj haddresses
  obtain ⟨hfeePayer, hnonce⟩ := List.cons.inj haddresses
  have hsame : (r.withSecrets signer feePayer nonce).signerAddress suite =
      r.signerAddress suite := by
    rw [signerAddress_eq h'.signer, hsigner, signerAddress_eq h.signer]
    rfl
  refine ⟨hsame, ?_, Kind.rel_sameAccounts_map ?_, rfl, rfl, rfl, rfl, rfl, rfl⟩
  · rw [feePayerAddress_eq h'.feePayer, hfeePayer, hsame, feePayerAddress_eq h.feePayer]
    rfl
  · intro kind hkind
    cases kind with
    | createNonce arguments =>
      have hkind' : (r.withSecrets signer feePayer nonce).kind =
          some (.createNonce { arguments with secret := nonce }) := by
        rw [withSecrets, hkind]
        rfl
      have haddress : nonce.address? suite = arguments.secret.address? suite := by
        rw [hkind', hkind] at hnonce
        exact (List.cons.inj hnonce).1
      exact .createNonce
        (CreateNonce.address_withSecret (h.nonce hkind) (h'.nonce hkind') haddress) rfl
    | _ => exact .refl _

theorem sameAccounts_watchOnly (h : r.HasValidSecrets suite) :
    SameAccounts suite r (r.watchOnly suite) := by
  have hsigner : (r.watchOnly suite).signerAddress suite = r.signerAddress suite := by
    rw [signerAddress_eq Secret.isValid_empty, signerAddress_eq h.signer, watchOnly]
    cases r.privateKey.address? suite with
    | some a => exact addressField_text "sender" a
    | none => rfl
  refine ⟨hsigner, ?_, Kind.rel_sameAccounts_map ?_, rfl, rfl, rfl, rfl, rfl, rfl⟩
  · rw [feePayerAddress_eq Secret.isValid_empty, hsigner, feePayerAddress_eq h.feePayer, watchOnly]
    cases r.feePayerPrivateKey.address? suite with
    | some a => simp only [Secret.address?_empty, filled_text, addressField_text]
    | none => rfl
  · intro kind hkind
    cases kind with
    | createNonce arguments =>
      exact .createNonce (CreateNonce.address_watchOnly (h.nonce hkind))
        (CreateNonce.rent_watchOnly arguments)
    | _ => exact .refl _

end Request

/-! ## What is signed -/

/-- The entry is a signature of the bytes by its signer. -/
def SignatureEntry.Verifies (suite : CryptoSuite) (bytes : List UInt8) (entry : SignatureEntry) :
    Prop :=
  ∃ pair, entry.read = .ok pair ∧ verifySignature suite pair.1 bytes pair.2 = .ok ()

namespace Request

variable {r : Request} {output : SignedOutput} {bytes : List UInt8}

/-- Signing is for the bytes that are handed out, whoever signs. -/
theorem preimage_of_sign (h : r.sign suite = .ok output) :
    ∃ asked, r.preimage suite = .ok asked ∧
      r.encoding.decode? output.message = some asked.bytes ∧
      asked.signers = output.signatures.map (·.signer) := by
  obtain ⟨built, entries, hbuilt, houtput⟩ := exists_foldl_put_of_sign h
  obtain ⟨hsound, -⟩ := buildTransaction_sound hbuilt
  exact preimage_of_output hbuilt (Transaction.message_foldl_put entries built)
    (Transaction.slots_foldl_put hsound.slots entries) houtput

theorem verifies_of_sign (hsuite : suite.SignsVerifiably) (h : r.sign suite = .ok output)
    (hbytes : r.encoding.decode? output.message = some bytes) :
    ∀ entry ∈ output.signatures, entry.Verifies suite bytes := by
  obtain ⟨built, tx, -, hcompletes, houtput⟩ := exists_completes_of_sign hsuite h
  obtain ⟨wire, written, -, hwritten, rfl⟩ := Transaction.output_eq_ok_iff.mp houtput
  obtain rfl : written = bytes :=
    Option.some.inj ((Encoding.decode?_eq_some_iff.mpr rfl).symm.trans hbytes)
  intro entry hentry
  obtain ⟨pair, hpair, rfl⟩ := List.mem_map.mp hentry
  exact ⟨pair, SignatureEntry.read_ofPair pair,
    hcompletes.sound.verifies_of_mem hwritten hpair (hcompletes.filled pair hpair)⟩

/-- **Secrets are known by their addresses.**  With addresses in place of its
keys a request asks for the same bytes to be signed, by the same signers, or
fails for the same reason; and so it does with any other secrets that have the
same addresses.  If the request can be signed with its keys then these bytes are
the message of the output, their signers are those of the output, and the
signatures in it verify over them, as long as those that keys make do. -/
theorem preimage_watchOnly (h : r.HasValidSecrets suite) :
    (r.watchOnly suite).preimage suite = r.preimage suite ∧
      (∀ signer feePayer nonce : Secret,
        (r.withSecrets signer feePayer nonce).HasValidSecrets suite →
        (r.withSecrets signer feePayer nonce).secrets.map (Secret.address? suite) =
          r.secrets.map (Secret.address? suite) →
        (r.withSecrets signer feePayer nonce).preimage suite = r.preimage suite) ∧
      ∀ output, r.sign suite = .ok output → ∃ asked,
        (r.watchOnly suite).preimage suite = .ok asked ∧
        r.encoding.decode? output.message = some asked.bytes ∧
        asked.signers = output.signatures.map (·.signer) ∧
        (suite.SignsVerifiably →
          ∀ entry ∈ output.signatures, entry.Verifies suite asked.bytes) := by
  have hwatchOnly : (r.watchOnly suite).preimage suite = r.preimage suite :=
    (sameAccounts_watchOnly h).preimage_eq
  refine ⟨hwatchOnly, ?_, ?_⟩
  · intro signer feePayer nonce h' haddresses
    exact (sameAccounts_withSecrets h h' haddresses).preimage_eq
  · intro output hsign
    obtain ⟨asked, hasked, hmessage, hsigners⟩ := preimage_of_sign hsign
    exact ⟨asked, hwatchOnly.trans hasked, hmessage, hsigners,
      fun hsuite => verifies_of_sign hsuite hsign hmessage⟩

/-- The sender pays for a nonce account that is named by its key. -/
def sampleKeys : Request where
  privateKey := { bytes := List.replicate 32 1 }
  recentBlockhash := Blockhash.text ⟨Block.fit 32 [9]⟩
  kind := some (.createNonce { rent := 7, secret := { bytes := List.replicate 32 2 } })

theorem hasValidSecrets_sampleKeys : sampleKeys.HasValidSecrets suite := by
  have hsecrets : sampleKeys.secrets =
      [{ bytes := List.replicate 32 1 }, {}, { bytes := List.replicate 32 2 }] := rfl
  rw [HasValidSecrets, hsecrets]
  simp only [List.forall_mem_cons]
  exact ⟨Secret.isValid_of_length rfl, Secret.isValid_empty, Secret.isValid_of_length rfl,
    List.forall_mem_nil _⟩

/-- The sample can be signed with its keys, and with addresses in their place it
asks for the message of the output, by the signers of the output. -/
theorem preimage_of_sampleKeys :
    (sampleKeys.preimage .ledger).isOk = true ∧
      (sampleKeys.watchOnly .ledger).preimage .ledger = sampleKeys.preimage .ledger ∧
      ∃ output asked, sampleKeys.sign CryptoSuite.ledger.lawful = .ok output ∧
        (sampleKeys.watchOnly CryptoSuite.ledger.lawful).preimage CryptoSuite.ledger.lawful =
          .ok asked ∧
        sampleKeys.encoding.decode? output.message = some asked.bytes ∧
        asked.signers = output.signatures.map (·.signer) ∧
        ∀ entry ∈ output.signatures, entry.Verifies CryptoSuite.ledger.lawful asked.bytes := by
  refine ⟨by decide +kernel, (preimage_watchOnly hasValidSecrets_sampleKeys).1, ?_⟩
  obtain ⟨output, hsign⟩ : ∃ output, sampleKeys.sign CryptoSuite.ledger.lawful = .ok output :=
    exists_eq_ok_of_isOk (by decide +kernel)
  obtain ⟨-, -, hsigned⟩ := preimage_watchOnly hasValidSecrets_sampleKeys
  obtain ⟨asked, hasked, hmessage, hsigners, hverifies⟩ := hsigned output hsign
  exact ⟨output, asked, hsign, hasked, hmessage, hsigners,
    hverifies CryptoSuite.ledger.signsVerifiably_lawful⟩

end Request

end SolanaWallet
