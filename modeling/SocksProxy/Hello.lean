import SocksProxy.Session

/-!
# The hello states (`hello.c`)
-/

namespace SocksProxy

def onHelloMethod (selected method : UInt8) : UInt8 :=
  if selected ≠ methodUsernamePassword then
    if method = methodNoAuthenticationRequired ∨ method = methodUsernamePassword then method else selected
  else selected

def helloArrival (_ : Key) (c : Conn) : Conn := { c with hello.parser := helloParserInit }

def helloProcess (c : Conn) : Conn × SessionState :=
  let (output, n) := helloMarshall c.output c.hello.method
  ({ c with output := output },
    if c.hello.method = methodNoAcceptableMethods then .error else if n = -1 then .error else .helloWrite)

/-- The rest of `hello_read`, once the bytes received have been consumed. -/
def helloConsumed (k : Key) (c : Conn) : Conn × SessionState :=
  let r : Conn × SessionState :=
    if (helloIsDone c.hello.parser.state).1 then
      match c.setInterest k.fd opWrite with
      | (c, .success) => helloProcess c
      | (c, _) => (c, .error)
    else (c, .helloRead)
  (r.1, if (helloIsDone c.hello.parser.state).2 then .error else r.2)

def helloRead (k : Key) (c : Conn) : Conn × SessionState :=
  match recvInto c.input k.sys.recv with
  | none => (c.note (.recv k.fd none), .error)
  | some (l, b) =>
    let c := c.note (.recv k.fd (some l))
    if l = [] then (c, .error)
    else
      let r := helloConsume (some onHelloMethod) b (c.hello.parser, c.hello.method)
      helloConsumed k { c with input := r.1, hello := ⟨r.2.1, r.2.2⟩ }

def helloWrite (k : Key) (c : Conn) : Conn × SessionState :=
  match sendFrom c.output k.sys.send with
  | none => (c.note (.send k.fd none), .error)
  | some (l, b) =>
    let c : Conn := { c.note (.send k.fd (some l)) with output := b }
    if bufferCanRead c.output then (c, .helloWrite)
    else
      match c.setInterest k.fd opRead with
      | (c, .success) => (c, if c.hello.method = methodUsernamePassword then .authRead else .requestRead)
      | (c, _) => (c, .error)

/-! ## The method selected -/

/-- 02 if it is offered, else 00 if it is offered, else the value the fold
starts from. -/
theorem foldl_onHelloMethod (ms : List UInt8) {d : UInt8} (hd : d ≠ methodUsernamePassword) :
    ms.foldl onHelloMethod d =
      if methodUsernamePassword ∈ ms then methodUsernamePassword
      else if methodNoAuthenticationRequired ∈ ms then methodNoAuthenticationRequired else d := by
  have hkeep : ∀ l : List UInt8, l.foldl onHelloMethod methodUsernamePassword = methodUsernamePassword := by
    intro l
    induction l with
    | nil => rfl
    | cons m l ih => simpa [onHelloMethod] using ih
  induction ms generalizing d with
  | nil => simp
  | cons m ms ih =>
    rw [List.foldl_cons]
    by_cases h2 : m = methodUsernamePassword
    · subst h2
      simp [onHelloMethod, hd, hkeep]
    · by_cases h0 : m = methodNoAuthenticationRequired
      · subst h0
        have hs : onHelloMethod d methodNoAuthenticationRequired = methodNoAuthenticationRequired := by
          simp [onHelloMethod, hd]
        rw [hs, ih h2]
        simp only [List.mem_cons, Ne.symm h2, false_or, true_or, ite_true, ite_self]
      · have hs : onHelloMethod d m = d := by simp [onHelloMethod, hd, h0, h2]
        rw [hs, ih hd]
        simp [Ne.symm h0, Ne.symm h2]

end SocksProxy
