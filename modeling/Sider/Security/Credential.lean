/-
**Credentials and their proofs.**

A credential is valid in an interval of UTC time. A connection that has authenticated holds a proof: the
name of its user and the digest of the one verifier that matched. The proof is present in a policy that
still lists that verifier for the user, and valid while the credential is.
-/

import Sider.Security.Policy

namespace Sider

/-- What policies are read with: standard Base64, UTC timestamps in nanoseconds, and SHA-256. -/
structure Primitives where
  decode : String → Option Bytes
  timestamp : String → Option Int
  digest : String → Bytes

namespace Credential

variable (primitives : Primitives)

def interval (credential : Credential) : Except SecurityError (Int × Int) :=
  match primitives.timestamp credential.notBefore, primitives.timestamp credential.expiresAt with
  | some start, some stop => if stop ≤ start then .error .policy else .ok (start, stop)
  | _, _ => .error .policy

def validAt (credential : Credential) (now : Int) : Bool :=
  match credential.interval primitives with
  | .ok (start, stop) => start ≤ now && now < stop
  | .error _ => false

end Credential

/-- Bound to one verifier, while others of the same user may be valid as well. -/
structure CredentialProof where
  username : String
  verifierDigest : Bytes
  deriving DecidableEq, Repr

namespace CredentialProof

variable (primitives : Primitives)

/-- A removed verifier is a revocation, whatever its interval. -/
def present (proof : CredentialProof) (policy : ClientPolicy) : Bool :=
  policy.users.any fun user => user.name = proof.username &&
    user.credentials.any fun credential =>
      primitives.digest credential.verifier = proof.verifierDigest

def valid (proof : CredentialProof) (policy : ClientPolicy) (now : Int) : Bool :=
  policy.users.any fun user => user.name = proof.username &&
    user.credentials.any fun credential => credential.validAt primitives now &&
      primitives.digest credential.verifier = proof.verifierDigest

end CredentialProof

end Sider
