import BytecodeMachine.Class

namespace BytecodeMachine.Class

def isArraySupertype (n : ClassName) : Bool :=
  n = .object || n = .cloneable || n = .serializable

def above (c : Class) (interfaces : Bool) : List Class :=
  c.superclass.toList ++ if interfaces then c.interfaces else []

theorem mem_above_of_superclass {c s : Class} (h : c.superclass = some s) (interfaces : Bool) :
    s ∈ c.above interfaces := by
  simp [above, h]

def enqueue : List Class → List Class × List ClassName → List Class × List ClassName
  | [], s => s
  | c :: cs, (stack, seen) =>
      if c.name ∈ seen then enqueue cs (stack, seen)
      else enqueue cs (c :: stack, c.name :: seen)

noncomputable def weight : List Class → Nat
  | [] => 0
  | c :: cs => sizeOf c + weight cs

@[simp] theorem weight_nil : weight [] = 0 := rfl

@[simp] theorem weight_cons (c : Class) (cs : List Class) :
    weight (c :: cs) = sizeOf c + weight cs := rfl

@[simp] theorem weight_append (cs ds : List Class) :
    weight (cs ++ ds) = weight cs + weight ds := by
  induction cs with
  | nil => simp
  | cons c cs ih => simp [ih, Nat.add_assoc]

theorem weight_le_sizeOf (cs : List Class) : weight cs ≤ sizeOf cs := by
  induction cs with
  | nil => simp
  | cons c cs ih => simp; omega

theorem weight_enqueue (cs : List Class) (s : List Class × List ClassName) :
    weight (enqueue cs s).1 ≤ weight cs + weight s.1 := by
  induction cs generalizing s with
  | nil => simp [enqueue]
  | cons c cs ih =>
      obtain ⟨stack, seen⟩ := s
      simp only [enqueue]
      split
      · have := ih (stack, seen); simp at this ⊢; omega
      · have := ih (c :: stack, c.name :: seen); simp at this ⊢; omega

theorem weight_above (c : Class) (interfaces : Bool) : weight (c.above interfaces) < sizeOf c := by
  obtain ⟨n, s, i, k, a, src, sh, f, m, l⟩ := c
  have hi := weight_le_sizeOf i
  cases s <;> cases interfaces <;> simp [above] <;> omega

/-- Visits classes from the top of a stack, with the names already put there, until one has the name. -/
def reaches (target : ClassName) (interfaces : Bool) (stack : List Class) (seen : List ClassName) :
    Bool :=
  match stack with
  | [] => false
  | c :: rest =>
      if c.name = target then true
      else
        reaches target interfaces (enqueue (c.above interfaces) (rest, seen)).1
          (enqueue (c.above interfaces) (rest, seen)).2
termination_by weight stack
decreasing_by
  have h := weight_enqueue (c.above interfaces) (rest, seen)
  have := weight_above c interfaces
  simp only [weight_cons] at h ⊢
  omega

/-- Interfaces are left out of the visit where the target is none. -/
def isAssignable (c target : Class) : Bool :=
  match c with
  | ⟨n, s, i, k, a, src, sh, f, m, l⟩ =>
      match sh, target.shape with
      | .array t, .array u => byComponent k t target.component u
      | .array _, _ => isArraySupertype target.name
      | _, _ =>
          reaches target.name target.isInterface [⟨n, s, i, k, a, src, sh, f, m, l⟩] [n]
where
  byComponent : Option Class → FieldType → Option Class → FieldType → Bool
    | some c, _, some d, _ => isAssignable c d
    | none, t, none, u => t = u
    | _, _, _, _ => false

end BytecodeMachine.Class
