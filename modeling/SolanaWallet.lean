import SolanaWallet.EncodedTransaction
import SolanaWallet.Proofs.Edit.Frame
import SolanaWallet.Proofs.Edit.Rereading
import SolanaWallet.Proofs.Edit.Refusal
import SolanaWallet.Proofs.Request.Agreement
import SolanaWallet.Proofs.Request.WatchOnly
import SolanaWallet.Proofs.Edit.Recompiling
import SolanaWallet.Proofs.Edit.Collected
import SolanaWallet.Proofs.Request.Coverage
import SolanaWallet.Proofs.Edit.Settings
import SolanaWallet.Proofs.Transaction.Settings
import SolanaWallet.Proofs.Transaction.Filling
import SolanaWallet.Proofs.Request.Assembly
import SolanaWallet.Proofs.Request.Retained
import SolanaWallet.Proofs.Transaction.RawSigning
import SolanaWallet.Proofs.Transaction.Reanchoring
import SolanaWallet.Proofs.Wire.Delimiting
import SolanaWallet.Proofs.Request.Steps
import SolanaWallet.Proofs.Derivation.Bump
import SolanaWallet.Proofs.Derivation.Deposit
import SolanaWallet.Proofs.Message.Writability
import SolanaWallet.Proofs.Wire.Spelling
import SolanaWallet.Proofs.Edit.Appending
