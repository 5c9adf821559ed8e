import SocksProxy.Lib.Loop
import SocksProxy.Lib.Run
import SocksProxy.UserUtils

/-!
# The command line (`args.c`)

`parseArgs` starts from what `getopt_long` finds in the command line: the
options in order, and the operands left over. What follows a string in memory
is kept with it, since `add_user` copies by length. A number is an `unsigned
short` of 16 bits and a `long` has 64.
-/

namespace SocksProxy

open Lib

/-- The octets of a literal. -/
def literal (s : String) : List UInt8 := s.toList.map fun c => UInt8.ofNat c.toNat

/-- The argument of an option, with the memory behind its terminator. -/
structure OptArg where
  text : List UInt8
  behind : List UInt8
  noNul : 0 ∉ text

inductive Opt where
  | help
  | socksAddr (optarg : OptArg)
  | mngAddr (optarg : OptArg)
  | noDisectors
  | socksPort (optarg : OptArg)
  | mngPort (optarg : OptArg)
  | user (optarg : OptArg)
  | version
  | dohIp (optarg : OptArg)
  | dohPort (optarg : OptArg)
  | dohHost (optarg : OptArg)
  | dohPath (optarg : OptArg)
  | dohQuery (optarg : OptArg)
  | other (c : Int)

/-- Why `parse_args` ends the program, with what it prints. -/
inductive ArgsStop where
  | usage
  | version
  | port (s : List UInt8)
  | passwordNotFound
  | maximumUsers
  | unknownArgument (c : Int)
  | notAccepted (operands : List (List UInt8))
  deriving DecidableEq, Repr

def maxUsers : Nat := 10

/-- The memory at the two pointers; `none` is a null pointer. -/
structure Users where
  name : Option (List UInt8)
  pass : Option (List UInt8)
  deriving DecidableEq, Repr

structure Doh where
  host : List UInt8
  ip : List UInt8
  port : UInt16
  path : List UInt8
  query : List UInt8
  deriving DecidableEq, Repr

structure Socks5Args where
  socksAddr : List UInt8
  socksPort : UInt16
  mngAddr : List UInt8
  mngPort : UInt16
  disectorsEnabled : Bool
  doh : Doh
  userCount : Int
  users : List Users
  admin : Users
  deriving DecidableEq, Repr

/-! ## Options -/

def isSpace (c : UInt8) : Bool := c = 0x20 || (0x09 ≤ c && c ≤ 0x0D)

def isDigit (c : UInt8) : Bool := 0x30 ≤ c && c ≤ 0x39

def longMax : Int := 9223372036854775807
def longMin : Int := -9223372036854775808

/-- `strtol` in base 10: the number, and what is left of the string. -/
def strtol (s : List UInt8) : Int × List UInt8 :=
  let t := s.dropWhile isSpace
  let (negative, t) := match t with
    | 0x2D :: t => (true, t)
    | 0x2B :: t => (false, t)
    | t => (false, t)
  let digits := t.takeWhile isDigit
  if digits = [] then (0, s)
  else
    let n : Int := digits.foldl (fun n c => 10 * n + (c.toNat - 0x30 : Nat)) 0
    (max longMin (min longMax (if negative then -n else n)), t.dropWhile isDigit)

def ushrtMax : Int := 65535

/-- `errno` need not be looked at: a number at the bounds of `long` is no port. -/
def port (s : List UInt8) : Except ArgsStop UInt16 :=
  let (sl, rest) := strtol s
  if rest = s ∨ rest ≠ [] ∨ sl < 0 ∨ ushrtMax < sl then .error (.port s) else .ok (UInt16.ofNat sl.toNat)

/-- `strchr(s, ':')` becomes the terminator of the name. -/
def user (s : OptArg) : Except ArgsStop Users :=
  match s.text.dropWhile (· ≠ 0x3A) with
  | [] => .error .passwordNotFound
  | _ :: p =>
    let pass := p ++ 0 :: s.behind
    .ok ⟨some (s.text.takeWhile (· ≠ 0x3A) ++ 0 :: pass), some pass⟩

/-- `args` with its defaults, and `nusers`. -/
def argsDefault : Socks5Args × Nat :=
  ({ socksAddr := literal "0.0.0.0"
     socksPort := 1080
     mngAddr := literal "127.0.0.1"
     mngPort := 8080
     disectorsEnabled := true
     doh := ⟨literal "localhost", literal "127.0.0.1", 8053, literal "/getnsrecord", literal "?dns="⟩
     userCount := 0
     users := List.replicate maxUsers ⟨none, none⟩
     admin := ⟨none, none⟩ }, 0)

/-- One pass of the loop of `parse_args`. -/
def parseOption (r : Socks5Args × Nat) (o : Opt) : Except ArgsStop (Socks5Args × Nat) :=
  let (args, nusers) := r
  match o with
  | .help => .error .usage
  | .socksAddr s => .ok ({ args with socksAddr := s.text }, nusers)
  | .mngAddr s => .ok ({ args with mngAddr := s.text }, nusers)
  | .noDisectors => .ok ({ args with disectorsEnabled := false }, nusers)
  | .socksPort s => (port s.text).map fun n => ({ args with socksPort := n }, nusers)
  | .mngPort s => (port s.text).map fun n => ({ args with mngPort := n }, nusers)
  | .user s =>
    if maxUsers ≤ nusers then .error .maximumUsers
    else (user s).map fun u => ({ args with users := args.users.set nusers u }, nusers + 1)
  | .version => .error .version
  | .dohIp s => .ok ({ args with doh.ip := s.text }, nusers)
  | .dohPort s => (port s.text).map fun n => ({ args with doh.port := n }, nusers)
  | .dohHost s => .ok ({ args with doh.host := s.text }, nusers)
  | .dohPath s => .ok ({ args with doh.path := s.text }, nusers)
  | .dohQuery s => .ok ({ args with doh.query := s.text }, nusers)
  | .other c => .error (.unknownArgument c)

def parseArgs (opts : List Opt) (operands : List (List UInt8)) : Except ArgsStop Socks5Args :=
  match run parseOption argsDefault opts with
  | .error stop => .error stop
  | .ok (args, _) => if operands = [] then .ok args else .error (.notAccepted operands)

/-! ## The users of the server (`server.c`) -/

/-- `sizeof(user.name)`, the size of a pointer. -/
def pointerSize : UInt8 := 8

/-- The memory at a pointer that is not null. -/
def Users.nameMemory (u : Users) : List UInt8 := u.name.getD []

def Users.passMemory (u : Users) : List UInt8 := u.pass.getD []

def initializeUsers (h : Heap) (args : Socks5Args) : List User :=
  loop (fun list i =>
    let user := args.users.getD i ⟨none, none⟩
    (addUser h list user.nameMemory pointerSize user.passMemory pointerSize false).1)
    (initUserList h) args.userCount.toNat

end SocksProxy
