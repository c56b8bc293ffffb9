/-!
# Dense matrices of doubles

Matrices and vectors of doubles for the numerical methods. Entries are stored row by row.
-/

set_option autoImplicit false

namespace PerformanceEstimation.Numeric

/-- A matrix of doubles, row by row. -/
structure Dense where
  rows : Nat
  cols : Nat
  data : FloatArray

@[inline] def tabulate (n : Nat) (f : Nat → Float) : FloatArray := Id.run do
  let mut v := FloatArray.emptyWithCapacity n
  for i in [0:n] do
    v := v.push (f i)
  return v

def zeros (n : Nat) : FloatArray :=
  tabulate n fun _ => 0

def unitVector (n i : Nat) : FloatArray :=
  (zeros n).set! i 1

def append (u v : FloatArray) : FloatArray :=
  ⟨u.data ++ v.data⟩

/-- The entries from position `start` on, `length` of them. -/
def slice (v : FloatArray) (start length : Nat) : FloatArray :=
  tabulate length fun i => v.get! (start + i)

def inner (n : Nat) (u v : FloatArray) : Float := Id.run do
  let mut s := 0
  for i in [0:n] do
    s := s + u.get! i * v.get! i
  return s

def norm (v : FloatArray) : Float :=
  (inner v.size v v).sqrt

def addScaled (u : FloatArray) (c : Float) (v : FloatArray) : FloatArray := Id.run do
  let mut u := u
  for i in [0:u.size] do
    u := u.set! i (u.get! i + c * v.get! i)
  return u

def scaled (c : Float) (v : FloatArray) : FloatArray :=
  tabulate v.size fun i => c * v.get! i

def mix (a : Float) (u : FloatArray) (b : Float) (v : FloatArray) : FloatArray :=
  tabulate u.size fun i => a * u.get! i + b * v.get! i

namespace Dense

@[inline] def get (A : Dense) (i j : Nat) : Float :=
  A.data.get! (i * A.cols + j)

@[inline] def set (A : Dense) (i j : Nat) (x : Float) : Dense :=
  { A with data := A.data.set! (i * A.cols + j) x }

@[inline] def ofFn (rows cols : Nat) (f : Nat → Nat → Float) : Dense :=
  ⟨rows, cols, tabulate (rows * cols) fun k => f (k / cols) (k % cols)⟩

def zero (rows cols : Nat) : Dense :=
  ⟨rows, cols, zeros (rows * cols)⟩

def identity (n : Nat) : Dense :=
  ofFn n n fun i j => if i = j then 1 else 0

def transpose (A : Dense) : Dense :=
  ofFn A.cols A.rows fun i j => A.get j i

def columns (A : Dense) : Array FloatArray :=
  (Array.range A.cols).map fun j => tabulate A.rows fun i => A.get i j

def ofColumns (rows : Nat) (columns : Array FloatArray) : Dense :=
  ofFn rows columns.size fun i j => (columns[j]!).get! i

def productEntry (A B : Dense) (i j : Nat) : Float := Id.run do
  let mut s := 0
  for k in [0:A.cols] do
    s := s + A.get i k * B.get k j
  return s

def mul (A B : Dense) : Dense :=
  ofFn A.rows B.cols (productEntry A B)

end Dense

end PerformanceEstimation.Numeric
