import Oscam.Lib.Chain
import Oscam.Protocol.EcmLength

/-!
# The login of a CCcam client

`cc_srv_connect` knows only the first 20 bytes of a user name, so that several
accounts may match.  It tries their passwords one after the other on the six
bytes the client has sent; the cipher is put back before each try, the six
bytes are not.
-/

namespace Oscam.Cccam

/-- What the login reads of `s_auth`. -/
structure LoginAccount where
  addr : Nat
  usr : List UInt8
  pwd : List UInt8
  disabled : Bool
  dyndns : List UInt8
  dynip : UInt32
  deriving DecidableEq, Repr

/-- `strncmp(usr, account->usr, 20) == 0`. -/
def LoginAccount.named (usr : List UInt8) (account : LoginAccount) : Bool :=
  usr.take 20 = account.usr.take 20

/-- `cs_auth_client`, for a client with this address.  The address of a dynamic
name is looked up again when it is not the client's. -/
def csAuthClient (ip : UInt32) (csUserResolve : LoginAccount → UInt32) :
    Option LoginAccount → Nat
  | none => 1
  | some account =>
      if account.disabled then 1
      else if ip ≠ 0 ∧ account.dyndns ≠ [] ∧ ip ≠ account.dynip ∧
          ip ≠ csUserResolve account then 2
      else 0

/-- The user name in the 20 bytes that are received. -/
def userName (name : List UInt8) : List UInt8 := name.takeWhile (· ≠ 0)

open EcmMessage (countingBlock)

end Oscam.Cccam
