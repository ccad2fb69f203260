/-!
Linear forms: an integer, and integer multiples of variables. The variables of a form ascend and none
has the factor zero, so equal forms have equal data.
-/

namespace Horn.Linear

structure Form where
  const : Int
  terms : List (Nat × Int)
  deriving DecidableEq, Repr

namespace Form

def ofInt (n : Int) : Form := ⟨n, []⟩

def var (x : Nat) : Form := ⟨0, [(x, 1)]⟩

def addTerms : List (Nat × Int) → List (Nat × Int) → List (Nat × Int)
  | [], ts => ts
  | ss, [] => ss
  | (x, a) :: ss, (y, b) :: ts =>
    if x < y then (x, a) :: addTerms ss ((y, b) :: ts)
    else if y < x then (y, b) :: addTerms ((x, a) :: ss) ts
    else if a + b = 0 then addTerms ss ts
    else (x, a + b) :: addTerms ss ts
termination_by ss ts => ss.length + ts.length

def add (s t : Form) : Form := ⟨s.const + t.const, addTerms s.terms t.terms⟩

def scale (k : Int) (t : Form) : Form :=
  if k = 0 then ofInt 0 else ⟨k * t.const, t.terms.map fun (x, a) => (x, k * a)⟩

def neg (t : Form) : Form := t.scale (-1)

def sub (s t : Form) : Form := s.add t.neg

def plus (t : Form) (k : Int) : Form := { t with const := t.const + k }

def coeff (t : Form) (x : Nat) : Int := (t.terms.lookup x).getD 0

def without (t : Form) (x : Nat) : Form := { t with terms := t.terms.filter fun e => e.1 != x }

def homogeneous (t : Form) : Form := { t with const := 0 }

def isConst (t : Form) : Bool := t.terms.isEmpty

def vars (t : Form) : List Nat := t.terms.map (·.1)

def content (t : Form) : Nat := t.terms.foldl (fun g e => Nat.gcd g e.2.natAbs) 0

def bind (σ : Nat → Form) (t : Form) : Form :=
  t.terms.foldl (fun s e => s.add ((σ e.1).scale e.2)) (ofInt t.const)

def lift (k : Nat) (t : Form) : Form := { t with terms := t.terms.map fun (x, a) => (x + k, a) }

/-- `g` times the form, where `g` times the variable is the given form. -/
def replace (t : Form) (x : Nat) (g : Int) (s : Form) : Form :=
  ((t.without x).scale g).add (s.scale (t.coeff x))

/-- A number that no variable of the form has or exceeds. -/
def bound (t : Form) : Nat := t.terms.foldl (fun n e => max n (e.1 + 1)) 0

end Form

end Horn.Linear
