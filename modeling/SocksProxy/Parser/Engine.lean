import SocksProxy.Stm
import SocksProxy.Parser.Credentials
import SocksProxy.Lib.Run
import SocksProxy.Lib.Loop

/-!
# The parser engine (`parser.c`) and its string comparison (`parser_utils.c`)

A table of states, each with the transitions it tries in order. The arrays of
`parser_utils_strcmpi` are filled entry by entry as the source fills them; a
definition keeps the transitions in one array and the places where the states
begin in it. `parser_feed` ends in a fault where it would follow a null pointer
or leave an array of the definition.
-/

namespace SocksProxy

open Lib

structure ParserEvent (τ : Type) where
  type : τ
  data : Vector UInt8 3
  n : UInt8
  /-- Whether `next` points to the second event. -/
  next : Bool
  deriving DecidableEq, Repr

instance {τ : Type} [Inhabited τ] : Inhabited (ParserEvent τ) := ⟨⟨default, Vector.replicate 3 0, 0, false⟩⟩

structure ParserStateTransition (τ : Type) where
  when : Int
  dest : Nat
  act1 : Option (ParserEvent τ → UInt8 → ParserEvent τ)
  act2 : Option (ParserEvent τ → UInt8 → ParserEvent τ)

/-- What `calloc` leaves. -/
instance {τ : Type} : Inhabited (ParserStateTransition τ) := ⟨⟨0, 0, none, none⟩⟩

structure ParserDefinition (τ : Type) where
  statesCount : Nat
  transitions : List (ParserStateTransition τ)
  states : List Nat
  statesN : List Nat
  startState : Nat

structure Parser (τ : Type) where
  /-- `parser_no_classes` has 255 words, so that the byte 255 reads the word behind them. -/
  classes : UInt8 → BitVec 32
  definition : ParserDefinition τ
  state : Nat
  e1 : ParserEvent τ
  e2 : ParserEvent τ

def any : Int := 1 <<< 9

section
variable {τ : Type}

def parserInit [Inhabited τ] (classes : UInt8 → BitVec 32) (definition : ParserDefinition τ) : Parser τ :=
  ⟨classes, definition, definition.startState, default, default⟩

def ParserStateTransition.matched (t : ParserStateTransition τ) (type : BitVec 32) (c : UInt8) : Bool :=
  if t.when ≤ 0xFF then decide ((c.toNat : Int) = t.when)
  else if t.when = any then true
  else type &&& BitVec.ofInt 32 t.when != 0

def Parser.fire (p : Parser τ) (t : ParserStateTransition τ) (c : UInt8) : Except Fault (Parser τ) :=
  match t.act1 with
  | none => .error .wildPointer
  | some act1 =>
    match t.act2 with
    | none => .ok { p with e1 := act1 p.e1 c, state := t.dest }
    | some act2 =>
      .ok { p with e1 := { act1 p.e1 c with next := true }, e2 := act2 p.e2 c, state := t.dest }

/-- The loop of `parser_feed` over `k` transitions from the place `at`. -/
def Parser.firstMatch (p : Parser τ) (type : BitVec 32) (c : UInt8) : Nat → Nat → Except Fault (Parser τ)
  | _, 0 => .ok p
  | place, k + 1 =>
    match p.definition.transitions[place]? with
    | none => .error .tableOverrun
    | some t => if t.matched type c then p.fire t c else p.firstMatch type c (place + 1) k

/-- The event it returns is `e1` of the parser it leaves. -/
def parserFeed (p : Parser τ) (c : UInt8) : Except Fault (Parser τ) :=
  let p := { p with e1 := { p.e1 with next := false }, e2 := { p.e2 with next := false } }
  match p.definition.states[p.state]?, p.definition.statesN[p.state]? with
  | some place, some n => p.firstMatch (p.classes c) c place n
  | _, _ => .error .tableOverrun

end

/-! ## String comparison -/

inductive StringCmp where
  | mayeq
  | eq
  | neq
  deriving DecidableEq, Repr, Inhabited

def event (type : StringCmp) (ret : ParserEvent StringCmp) (c : UInt8) : ParserEvent StringCmp :=
  { ret with type, n := 1, data := ret.data.set 0 c }

def mayEq : ParserEvent StringCmp → UInt8 → ParserEvent StringCmp := event .mayeq
def eq : ParserEvent StringCmp → UInt8 → ParserEvent StringCmp := event .eq
def neq : ParserEvent StringCmp → UInt8 → ParserEvent StringCmp := event .neq

/-- A `char` is signed. -/
def charValue (b : UInt8) : Int := if b < 128 then b.toNat else b.toNat - 256

def intTolower (c : Int) : Int := if 65 ≤ c ∧ c ≤ 90 then c + 32 else c
def intToupper (c : Int) : Int := if 97 ≤ c ∧ c ≤ 122 then c - 32 else c

/-- The three arrays that `parser_utils_strcmpi` allocates. -/
structure Tables where
  transitions : List (ParserStateTransition StringCmp)
  states : List Nat
  nstates : List Nat

def stateRow (s : List UInt8) (n : Nat) (t : Tables) (i : Nat) : Tables :=
  let dest := if i + 1 = n then n else i + 1
  let act := if i + 1 = n then eq else mayEq
  { transitions :=
      ((t.transitions.set (i * 3 + 0) ⟨intTolower (charValue (s.getD i 0)), dest, some act, none⟩).set
        (i * 3 + 1) ⟨intToupper (charValue (s.getD i 0)), dest, some act, none⟩).set
        (i * 3 + 2) ⟨any, n + 1, some neq, none⟩
    states := t.states.set i (i * 3 + 0)
    nstates := t.nstates.set i 3 }

/-- The rows of `EQ` and of `NEQ`: whatever comes next, the texts differ. -/
def sinkRow (n : Nat) (t : Tables) (i : Nat) : Tables :=
  { transitions := t.transitions.set (i * 3) ⟨any, n + 1, some neq, none⟩
    states := t.states.set i (i * 3 + 0)
    nstates := t.nstates.set i 1 }

/-- The allocations succeed. -/
def parserUtilsStrcmpi (s : List UInt8) : ParserDefinition StringCmp :=
  let n := (cString s).length
  let calloc : Tables := ⟨List.replicate (3 * (n + 2)) default, List.replicate (n + 2) 0, List.replicate (n + 2) 0⟩
  let t := sinkRow n (sinkRow n (loop (stateRow s n) calloc n) n) (n + 1)
  { statesCount := n + 2, transitions := t.transitions, states := t.states, statesN := t.nstates, startState := 0 }

end SocksProxy
