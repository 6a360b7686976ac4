import Oscam.Globals
import Oscam.Lib.Memory
import Mathlib.Data.List.DropRight

/-!
# Requests of monitors

`monitor_recv` and `monitor_process_request` for one client: how a request is
cut out of a datagram, plain or encrypted, and what is executed for it.
-/

namespace Oscam.Monitor

/-! ## Accounts and clients -/

def ascii (text : String) : List UInt8 :=
  text.toList.map fun c => UInt8.ofNat c.toNat

/-- The part of `struct s_auth` that monitors use.  `dynip` is the address
that a dynamic name is resolved to. -/
structure Account where
  usr : List UInt8
  pwd : List UInt8
  monlvl : Nat
  disabled : Bool
  dyndns : Bool
  dynip : Nat
  deriving DecidableEq, Repr

/-- The settings; `monAllowed` has ranges of addresses. -/
structure MonitorCfg where
  account : List Account
  monAllowed : List (Nat × Nat)
  deriving DecidableEq, Repr

/-- A client of the monitor, as far as it decides on its requests. -/
structure MonitorClient where
  ip : Nat
  auth : Bool
  crypted : Bool
  ucrc : List UInt8
  aesKey : List UInt8
  monlvl : Nat
  deriving DecidableEq, Repr

/-- The functions of the vendored libraries; `crc32` gives the four bytes of
a checksum, the highest first. -/
structure Crypto where
  aesDecrypt : List UInt8 → List UInt8 → List UInt8
  crc32 : List UInt8 → List UInt8
  md5 : List UInt8 → List UInt8

/-- `cs_auth_client` for a monitor; `none` is a rejected one. -/
def csAuthClient (cl : MonitorClient) (account : Account) :
    Option MonitorClient :=
  if account.disabled then none
  else if cl.ip ≠ 0 ∧ account.dyndns = true ∧ cl.ip ≠ account.dynip then none
  else some { cl with monlvl := account.monlvl }

/-- `monitor_check_ip`. -/
def monitorCheckIp (cfg : MonitorCfg) (cl : MonitorClient) : Bool :=
  cl.auth || cfg.monAllowed.any fun range =>
    range.1 ≤ cl.ip && cl.ip ≤ range.2

/-- `secmon_auth_client`; `none` is `cs_exit`. -/
def secmonAuthClient (crypto : Crypto) (cfg : MonitorCfg)
    (cl : MonitorClient) (ucrc : List UInt8) :
    Option (MonitorClient × Bool) :=
  if cl.auth then some (cl, cl.ucrc == ucrc)
  else
    let known := cfg.account.find? fun account =>
      account.monlvl != 0 && ucrc == crypto.crc32 (crypto.md5 account.usr)
    match known with
    | none => none
    | some account =>
        let cl := { cl with
          crypted := true, ucrc := ucrc, aesKey := crypto.md5 account.pwd }
        (csAuthClient cl account).map fun cl => ({ cl with auth := true }, true)

/-- `monitor_auth_client`, with a user and a password or without. -/
def monitorAuthClient (cfg : MonitorCfg) (cl : MonitorClient)
    (login : Option (List UInt8 × List UInt8)) : Option MonitorClient :=
  if cl.auth then some cl
  else
    match login with
    | none => none
    | some (usr, pwd) =>
        let known := cfg.account.find? fun account =>
          account.monlvl != 0 && usr == account.usr && pwd == account.pwd
        match known with
        | none => none
        | some account => csAuthClient { cl with auth := true } account

/-! ## Texts -/

/-- The bytes of a C string. -/
def cstr (bytes : List UInt8) : List UInt8 := bytes.takeWhile (· != 0)

def isBlank (byte : UInt8) : Bool :=
  byte == 32 || byte == 9 || byte == 10 || byte == 13

/-- `trim`: blanks in front are only removed if the first one is a space. -/
def trim (txt : List UInt8) : List UInt8 :=
  let txt := if txt.head? = some 32 then txt.dropWhile isBlank else txt
  txt.rdropWhile isBlank

/-- The bytes in front of a separator and those behind it. -/
def splitAt (separator : UInt8) (txt : List UInt8) :
    Option (List UInt8 × List UInt8) :=
  (txt.idxOf? separator).map fun p => (txt.take p, txt.drop (p + 1))

/-! ## Receiving -/

/-- The size of the buffer of `monitor_server`. -/
abbrev mbufSize : Nat := 1024

/-- The text that a message of the pipe begins with. -/
abbrev pipeUdp : UInt8 := 85

/-- `process_client_pipe`: a datagram of the pipe is copied to the buffer if
it fits. -/
def processClientPipe (buf : Memory) (datagram : List UInt8) : Memory :=
  if datagram.length + 3 ≤ mbufSize then
    buf.write 0 ([pipeUdp, UInt8.ofNat datagram.length,
      UInt8.ofNat (datagram.length / 256)] ++ datagram)
  else buf

/-- `recv_from_udpipe`; `none` is `cs_exit`. -/
def recvFromUdpipe (buf : Memory) : Option (List UInt8) :=
  if buf 0 ≠ pipeUdp then none
  else some (buf.read 3 ((buf 1).toNat + 256 * (buf 2).toNat))

/-- `boundary`. -/
def boundary (exp n : Nat) : Nat := ((n - 1) / 2 ^ exp + 1) * 2 ^ exp

/-- What a call of `monitor_recv` leaves: the bytes it worked on, the client,
what is parked in `bbuf`, and the request. -/
structure Received where
  data : List UInt8
  cl : MonitorClient
  bbuf : List UInt8
  request : List UInt8
  deriving DecidableEq, Repr

/-- `n` bytes of a message are decrypted in place. -/
def decryptAt (crypto : Crypto) (cl : MonitorClient) (data : List UInt8)
    (off n : Nat) : List UInt8 :=
  data.take off ++ crypto.aesDecrypt cl.aesKey ((data.drop off).take n) ++
    data.drop (off + n)

/-- An encrypted datagram, which begins with an ampersand. -/
def recvCrypted (crypto : Crypto) (cfg : MonitorCfg) (cl : MonitorClient)
    (data : List UInt8) : Option Received :=
  let nothing := fun (cl : MonitorClient) (bbuf : List UInt8) =>
    some { data := data, cl := cl, bbuf := bbuf, request := [] }
  if data.length < 21 then nothing cl []
  else
    match secmonAuthClient crypto cfg cl ((data.drop 1).take 4) with
    | none => none
    | some (cl, false) => nothing cl []
    | some (cl, true) =>
        let head := decryptAt crypto cl data 5 16
        let len := (head.getD 9 0).toNat
        let bsize := boundary 4 (len + 5) + 5
        let bbuf := data.drop bsize
        if data.length < bsize then nothing cl []
        else
          let text := decryptAt crypto cl (head.take bsize) 21 (bsize - 21)
          if (text.drop 5).take 4 ≠ crypto.crc32 (text.drop 10) then
            nothing cl bbuf
          else
            some { data := data, cl := cl, bbuf := bbuf
                   request := trim (cstr ((text.drop 10).take len)) }

/-- A plain datagram, of which the first line is the request. -/
def recvPlain (cfg : MonitorCfg) (cl : MonitorClient) (data : List UInt8) :
    Option Received :=
  if monitorCheckIp cfg cl then
    let text := cstr data
    match text.idxOf? 10 with
    | some p =>
        let bbuf := data.drop (p + 1)
        some { data := data, cl := cl, bbuf := bbuf
               request := trim (if bbuf.isEmpty then text else text.take p) }
    | none =>
        some { data := data, cl := cl, bbuf := [], request := trim text }
  else none

/-- The bytes that `monitor_recv` works on: what is parked, or else what came
from the pipe. -/
def monitorData (bbuf : List UInt8) (buf : Memory) : Option (List UInt8) :=
  if bbuf.isEmpty then recvFromUdpipe buf else some bbuf

/-- `monitor_recv`; `none` is `cs_exit`, after which nothing is parked.  What
is parked afterwards comes with a wake-up for the client. -/
def monitorRecv (crypto : Crypto) (cfg : MonitorCfg) (cl : MonitorClient)
    (bbuf : List UInt8) (buf : Memory) : Option Received :=
  match monitorData bbuf buf with
  | none => none
  | some data =>
      if data.isEmpty then
        some { data := [], cl := cl, bbuf := [], request := [] }
      else if data.head? = some 38 then recvCrypted crypto cfg cl data
      else recvPlain cfg cl data

/-! ## Executing -/

inductive MonitorCmd where
  | login
  | exit
  | log
  | status
  | shutdown
  | reload
  | details
  | version
  | debug
  | getuser
  | setuser
  | setserver
  | commands
  | keepalive
  | reread
  | restart
  deriving DecidableEq, Repr

/-- The texts of the commands, in the order of the table. -/
def cmdTexts : List (String × MonitorCmd) :=
  [("login", .login), ("exit", .exit), ("log", .log), ("status", .status),
    ("shutdown", .shutdown), ("reload", .reload), ("details", .details),
    ("version", .version), ("debug", .debug), ("getuser", .getuser),
    ("setuser", .setuser), ("setserver", .setserver),
    ("commands", .commands), ("keepalive", .keepalive),
    ("reread", .reread), ("restart", .restart)]

/-- The level a client needs for a command. -/
def MonitorCmd.level : MonitorCmd → Nat
  | .login | .exit | .log | .status | .details | .version | .reread => 0
  | .reload => 3
  | .shutdown | .debug | .getuser | .setuser | .setserver | .commands
  | .keepalive | .restart => 4

/-- A command that is executed, with its argument. -/
structure Executed where
  cmd : MonitorCmd
  arg : Option (List UInt8)
  deriving DecidableEq, Repr

/-- What is left of a client after a request; `none` if its thread ends. -/
structure Processed where
  cl : Option MonitorClient
  executed : Option Executed
  deriving DecidableEq, Repr

/-- `monitor_login`. -/
def monitorLogin (cfg : MonitorCfg) (cl : MonitorClient)
    (usr : Option (List UInt8)) : Option MonitorClient :=
  monitorAuthClient cfg cl ((usr.bind (splitAt 32)).map fun (usr, pwd) =>
    (trim usr, trim pwd))

/-- `monitor_process_request`. -/
def monitorProcessRequest (cfg : MonitorCfg) (cl : MonitorClient)
    (req : List UInt8) : Processed :=
  let name := ((splitAt 32 req).map (·.1)).getD req
  let arg := (splitAt 32 req).map fun (_, arg) => trim arg
  if cl.auth = false ∧ name ≠ ascii "login" then
    { cl := none, executed := none }
  else
    match cmdTexts.find? fun entry => ascii entry.1 == name with
    | none => { cl := some cl, executed := none }
    | some (_, .login) =>
        { cl := monitorLogin cfg cl arg
          executed := some { cmd := .login, arg := arg } }
    | some (_, .exit) =>
        { cl := none, executed := some { cmd := .exit, arg := arg } }
    | some (_, cmd) =>
        { cl := some cl
          executed := if cmd.level ≤ cl.monlvl then
              some { cmd := cmd, arg := arg }
            else none }

/-! ## What a call parks -/

variable {crypto : Crypto} {cfg : MonitorCfg} {cl : MonitorClient}
  {bbuf data : List UInt8} {buf : Memory} {r : Received}

/-- A datagram that fits the buffer is what is received. -/
theorem recvFromUdpipe_processClientPipe
    (fits : data.length + 3 ≤ mbufSize) :
    recvFromUdpipe (processClientPipe buf data) = some data := by
  have small : data.length + 3 ≤ 1024 := fits
  generalize size : data.length = n at small
  have parts := Memory.write_write buf 0
    [pipeUdp, UInt8.ofNat n, UInt8.ofNat (n / 256)] data
  have head : ∀ i, i < 3 → (buf.write 0 ([pipeUdp, UInt8.ofNat n,
      UInt8.ofNat (n / 256)] ++ data)) i =
        [pipeUdp, UInt8.ofNat n, UInt8.ofNat (n / 256)].getD i 0 := by
    intro i below
    have inside := @Memory.write_inside buf 0 i
      [pipeUdp, UInt8.ofNat n, UInt8.ofNat (n / 256)] below
    rw [← parts, Memory.write_of_lt (by simpa using below)]
    simpa using inside
  have body : (buf.write 0 ([pipeUdp, UInt8.ofNat n,
      UInt8.ofNat (n / 256)] ++ data)).read 3 n = data := by
    rw [← parts, ← size]
    exact Memory.read_write _ 3 data
  have low : (UInt8.ofNat n).toNat = n % 256 := UInt8.toNat_ofNat'
  have high : (UInt8.ofNat (n / 256)).toNat = n / 256 % 256 :=
    UInt8.toNat_ofNat'
  unfold processClientPipe recvFromUdpipe
  rw [if_pos fits, size, head 0 (by omega), head 1 (by omega),
    head 2 (by omega)]
  simp only [List.getD_cons_zero, List.getD_cons_succ, ne_eq,
    not_true_eq_false, if_false, low, high]
  rw [show n % 256 + 256 * (n / 256 % 256) = n by omega, body]

theorem recvCrypted_parks (received : recvCrypted crypto cfg cl data = some r) :
    r.data = data ∧ r.bbuf <:+ data := by
  unfold recvCrypted at received
  dsimp only at received
  split at received
  · cases received
    exact ⟨rfl, List.nil_suffix⟩
  · split at received
    · cases received
    · cases received
      exact ⟨rfl, List.nil_suffix⟩
    · split at received
      · cases received
        exact ⟨rfl, List.nil_suffix⟩
      · split at received
        · cases received
          exact ⟨rfl, List.drop_suffix _ _⟩
        · cases received
          exact ⟨rfl, List.drop_suffix _ _⟩

theorem recvPlain_parks (received : recvPlain cfg cl data = some r) :
    r.data = data ∧ r.bbuf <:+ data := by
  unfold recvPlain at received
  dsimp only at received
  split at received
  · split at received
    · cases received
      exact ⟨rfl, List.drop_suffix _ _⟩
    · cases received
      exact ⟨rfl, List.nil_suffix⟩
  · cases received

/-- What is parked is the end of what was worked on. -/
theorem monitorRecv_parks
    (received : monitorRecv crypto cfg cl bbuf buf = some r) :
    monitorData bbuf buf = some r.data ∧ r.bbuf <:+ r.data := by
  unfold monitorRecv at received
  split at received
  · cases received
  · rename_i data found
    rw [found]
    split at received
    · rename_i empty
      cases received
      exact ⟨congrArg some (List.isEmpty_iff.mp empty), List.nil_suffix⟩
    · split at received
      · obtain ⟨same, parks⟩ := recvCrypted_parks received
        rw [same]
        exact ⟨rfl, parks⟩
      · obtain ⟨same, parks⟩ := recvPlain_parks received
        rw [same]
        exact ⟨rfl, parks⟩

end Oscam.Monitor
