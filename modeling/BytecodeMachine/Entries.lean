namespace BytecodeMachine

abbrev Entries (α β : Type) := List (α × β)

namespace Entries

variable {α β : Type} [DecidableEq α]

def get? (entries : Entries α β) (key : α) : Option β :=
  (entries.find? fun e => e.1 = key).map (·.2)

def put (key : α) (value : β) : Entries α β → Entries α β
  | [] => [(key, value)]
  | e :: rest => if e.1 = key then (key, value) :: rest else e :: put key value rest

@[simp] theorem get?_nil (key : α) : get? ([] : Entries α β) key = none := rfl

theorem get?_cons (e : α × β) (rest : Entries α β) (key : α) :
    get? (e :: rest) key = if e.1 = key then some e.2 else get? rest key := by
  by_cases h : e.1 = key <;> simp [get?, h]

theorem get?_put (key other : α) (value : β) (entries : Entries α β) :
    get? (put key value entries) other =
      if key = other then some value else get? entries other := by
  induction entries with
  | nil => simp [put, get?_cons]
  | cons e rest ih =>
      by_cases h : e.1 = key
      · simp only [put, h, if_true, get?_cons]
        split <;> rfl
      · simp only [put, h, if_false, get?_cons, ih]
        by_cases h2 : key = other
        · subst h2; simp [h]
        · simp [h2]

theorem mem_of_get? {entries : Entries α β} {key : α} {value : β}
    (h : entries.get? key = some value) : (key, value) ∈ entries := by
  simp only [get?, Option.map_eq_some_iff] at h
  obtain ⟨e, he, rfl⟩ := h
  have hk : e.1 = key := by simpa using List.find?_some he
  exact hk ▸ List.mem_of_find?_eq_some he

end Entries

end BytecodeMachine
