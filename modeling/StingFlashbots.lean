import StingFlashbots.Encoding.BigEndian
import StingFlashbots.Encoding.RLP
import StingFlashbots.Crypto.Keccak
import StingFlashbots.Searcher.GenerateProof
import StingFlashbots.Searcher.NodeSteps
import StingFlashbots.Searcher.ProofCompleteness
import StingFlashbots.Base.Trace
import StingFlashbots.Builder.Leak
import StingFlashbots.Builder.MevBundles
import StingFlashbots.Builder.ReorgLoop
import StingFlashbots.Builder.VirtualNonces
import StingFlashbots.Commitment.Compression
import StingFlashbots.Commitment.Multiples
import StingFlashbots.Commitment.Pedersen
import StingFlashbots.Contract.Honeypot
import StingFlashbots.Contract.Invariants
import StingFlashbots.Contract.RecentBlocks
import StingFlashbots.Contract.Allocation
import StingFlashbots.Contract.Iteration
import StingFlashbots.Contract.RLPDecoding
import StingFlashbots.Crypto.Sha256
import StingFlashbots.Ecdsa.Account
import StingFlashbots.Searcher.Evidence
import StingFlashbots.Searcher.EvidenceCompleteness
import StingFlashbots.Searcher.EvidenceSoundness
import StingFlashbots.Searcher.RaTls
import StingFlashbots.Protocol.Payouts
import StingFlashbots.Protocol.Exposure
