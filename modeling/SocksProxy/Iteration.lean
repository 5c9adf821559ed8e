import SocksProxy.SelectorSound

/-!
# One round of the loop (`selector_select`, `handle_iteration`)

A callback is what it calls of the selector, which is all that the loop sees of
it. Registrations of a descriptor are numbered, so that an event can be followed
to the registration that gets it.
-/

namespace SocksProxy

/-- An event that arrives at a registration: the `gen`-th of descriptor `n`. -/
structure Delivery (η δ : Type) where
  n : Nat
  gen : Nat
  kind : Readiness
  handler : Option η
  key : Int × Option δ
  deriving DecidableEq, Repr

/-- The selector while the server runs. `gen` counts the registrations of each
descriptor, `failed` says that an assertion has failed, and `delivered` has the
events of this round. -/
structure Round (η δ : Type) where
  sel : Selector η δ
  gen : Nat → Nat
  failed : Bool
  delivered : List (Delivery η δ)

/-- What the callback for each event does if the event arrives: the calls that it
makes of the selector, those of the `handle_close` callbacks among them, in the
order in which they take effect; `none` when the callback is missing. -/
abbrev Callbacks (η δ : Type) := Nat → Readiness → Option (List (SelectorCall η δ))

section
variable {η δ : Type} (hasClose : η → Bool)

/-- A registration that succeeds is the next of its descriptor. -/
def SelectorCall.renumber (gen : Nat → Nat) : SelectorCall η δ → SelectorStatus → Nat → Nat
  | .register fd _ _ _ _, .success => Function.update gen fd.toNat (gen fd.toNat + 1)
  | _, _ => gen

def Round.exec (r : Round η δ) (c : SelectorCall η δ) : Round η δ :=
  let (s, status, _) := c.exec hasClose r.sel
  { r with sel := s, gen := c.renumber r.gen status }

def Round.execAll (r : Round η δ) (calls : List (SelectorCall η δ)) : Round η δ :=
  calls.foldl (Round.exec hasClose) r

def Round.deliver (r : Round η δ) (d : Delivery η δ) : Round η δ := { r with delivered := r.delivered ++ [d] }

/-- One of the two tests of `handle_iteration` for entry `i`; `isset` is whether
the set that `select` left has the descriptor. -/
def handleEvent (callbacks : Callbacks η δ) (key : Int × Option δ) (i : Nat) (kind : Readiness) (isset : Bool)
    (r : Round η δ) : Round η δ :=
  if r.failed then r
  else if isset then
    let item := r.sel.fds i
    if item.interest.has kind then
      let r := r.deliver ⟨i, r.gen i, kind, item.handler, key⟩
      match callbacks i kind with
      -- `assert`: the event arrived but there is no handler
      | none => { r with failed := true }
      | some calls => r.execAll hasClose calls
    else r
  else r

/-- The body of the loop of `handle_iteration`. -/
def handleItem (callbacks : Callbacks η δ) (r : Round η δ) (i : Nat) : Round η δ :=
  let item := r.sel.fds i
  if item.used then
    let key := (item.fd, item.data)
    let r := handleEvent hasClose callbacks key i .read (r.sel.slaveR item.fd.toNat) r
    handleEvent hasClose callbacks key i .write (r.sel.slaveW i) r
  else r

def handleIteration (callbacks : Callbacks η δ) (r : Round η δ) : Round η δ :=
  (List.range (r.sel.maxFd + 1)).foldl (handleItem hasClose callbacks) r

/-- `pselect` returns with the descriptors that are ready, or `none` when it fails. -/
abbrev SelectResult := Option (Nat → Readiness → Bool)

/-- The sets as `pselect` leaves them when the descriptors of `ready` are ready;
the events of a new round are to come. -/
def Round.begin (r : Round η δ) (ready : Nat → Readiness → Bool) : Round η δ :=
  let s := { r.sel with
    slaveR := fun n => r.sel.masterR n && ready n .read
    slaveW := fun n => r.sel.masterW n && ready n .write }
  { r with sel := s, delivered := [] }

/-- `selector_select`, as far as events go. -/
def selectorSelect (result : SelectResult) (callbacks : Callbacks η δ) (r : Round η δ) : Round η δ :=
  match result with
  | none => { r with delivered := [] }
  | some ready => handleIteration hasClose callbacks (r.begin ready)

/-- What happens in one turn of the server's loop: calls outside the callbacks,
what `pselect` returns and what the callbacks do. -/
structure Turn (η δ : Type) where
  calls : List (SelectorCall η δ)
  result : SelectResult
  callbacks : Callbacks η δ

def Turn.exec (r : Round η δ) (t : Turn η δ) : Round η δ :=
  selectorSelect hasClose t.result t.callbacks (r.execAll hasClose t.calls)

def serverRound : Round η δ := ⟨serverSelector, fun _ => 0, false, []⟩

/-- The selector when `selector_select` is called, after the turns of the loop so far. -/
def atSelect (turns : List (Turn η δ)) (calls : List (SelectorCall η δ)) : Round η δ :=
  (turns.foldl (Turn.exec hasClose) serverRound).execAll hasClose calls

end

end SocksProxy
