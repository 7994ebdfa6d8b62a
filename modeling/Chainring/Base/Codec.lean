import Chainring.Base.Bytes

/-! Readers of a byte stream and the encodings that they consume. A reader consumes an encoding when,
whatever follows it, it returns the value and leaves what follows; readers in a row consume encodings in
a row. A reader produces a property when whatever it returns has it, and takes a form when the bytes that it took
for what it returns have it. Of an encoding that is cut off, a reader
accepts some cuts and rejects the others; readers in a row accept what the last of them does. -/

namespace Chainring.Codec

variable {ε α β : Type}

/-- Whatever follows `bytes`, the reader takes them for `value` and leaves the rest. -/
def Consumes (reader : StateT Bytes (Except ε) α) (bytes : Bytes) (value : α) : Prop :=
  ∀ rest, reader (bytes ++ rest) = .ok (value, rest)

theorem consumes_pure (value : α) : Consumes (pure value : StateT Bytes (Except ε) α) [] value :=
  fun _ => rfl

theorem Consumes.bind {reader : StateT Bytes (Except ε) α} {f : α → StateT Bytes (Except ε) β}
    {bytes bytes' : Bytes} {a : α} {b : β} (h : Consumes reader bytes a)
    (h' : Consumes (f a) bytes' b) : Consumes (reader >>= f) (bytes ++ bytes') b := by
  intro rest
  rw [List.append_assoc]
  show (reader (bytes ++ (bytes' ++ rest)) >>= fun result => f result.1 result.2) = _
  rw [h (bytes' ++ rest)]
  exact h' rest

/-- The last part, from which the value is made. -/
theorem Consumes.bind_eq_pure {reader : StateT Bytes (Except ε) α} {f : α → StateT Bytes (Except ε) β}
    {bytes : Bytes} {a : α} {b : β} (h : Consumes reader bytes a) (hlast : f a = pure b) :
    Consumes (reader >>= f) bytes b := by
  have hboth := h.bind (f := f) (hlast ▸ consumes_pure b)
  rw [List.append_nil] at hboth
  exact hboth

/-- The last field of a record. -/
theorem Consumes.last {reader : StateT Bytes (Except ε) α} {bytes : Bytes} {a : α}
    (h : Consumes reader bytes a) (g : α → β) :
    Consumes (reader >>= fun value => pure (g value)) bytes (g a) :=
  h.bind_eq_pure rfl

theorem Consumes.map {reader : StateT Bytes (Except ε) α} {bytes : Bytes} {a : α}
    (h : Consumes reader bytes a) (f : α → β) : Consumes (f <$> reader) bytes (f a) := by
  intro rest
  show (reader (bytes ++ rest) >>= fun result => pure (f result.1, result.2)) = _
  rw [h rest]
  rfl

/-- What a reader consumes is read back from the bytes alone, and from them with anything after them. -/
theorem Consumes.run_fst {reader : StateT Bytes (Except ε) α} {bytes : Bytes} {a : α}
    (h : Consumes reader bytes a) (rest : Bytes) : (reader (bytes ++ rest)).map Prod.fst = .ok a := by
  rw [h rest]
  rfl

/-! ### What a reader returns -/

/-- Whatever the reader returns has the property. -/
def Produces (reader : StateT Bytes (Except ε) α) (P : α → Prop) : Prop :=
  ∀ bytes value rest, reader bytes = .ok (value, rest) → P value

section Produces

variable {reader : StateT Bytes (Except ε) α} {f : α → StateT Bytes (Except ε) β} {P P' : α → Prop} {Q : β → Prop}

theorem produces_true : Produces reader fun _ => True := fun _ _ _ _ => trivial

theorem produces_pure {value : α} (h : P value) : Produces (pure value : StateT Bytes (Except ε) α) P := by
  intro bytes value' rest hread
  cases hread
  exact h

theorem Produces.imp (h : Produces reader P) (himp : ∀ value, P value → P' value) : Produces reader P' :=
  fun bytes value rest hread => himp value (h bytes value rest hread)

theorem Produces.bind (h : Produces reader P) (h' : ∀ a, P a → Produces (f a) Q) : Produces (reader >>= f) Q := by
  intro bytes value rest hread
  change (reader bytes >>= fun result => f result.1 result.2) = _ at hread
  cases hfirst : reader bytes with
  | error fault =>
      rw [hfirst] at hread
      cases hread
  | ok result =>
      rw [hfirst] at hread
      exact h' result.1 (h bytes result.1 result.2 hfirst) result.2 value rest hread

theorem Produces.of_run_fst (h : Produces reader P) {bytes : Bytes} {value : α}
    (hread : (reader bytes).map Prod.fst = .ok value) : P value := by
  cases hresult : reader bytes with
  | error fault =>
      rw [hresult] at hread
      cases hread
  | ok result =>
      rw [hresult] at hread
      cases hread
      exact h bytes result.1 result.2 hresult

end Produces

/-! ### What a reader takes -/

/-- Whatever the reader returns, the bytes that it took for it have the form of it. -/
def Takes (reader : StateT Bytes (Except ε) α) (Form : α → Bytes → Prop) : Prop :=
  ∀ data value rest, reader data = .ok (value, rest) → ∃ bytes, data = bytes ++ rest ∧ Form value bytes

section Takes

variable {reader : StateT Bytes (Except ε) α} {f : α → StateT Bytes (Except ε) β} {Form Form' : α → Bytes → Prop}
  {Result : β → Bytes → Prop}

theorem takes_pure {value : α} (h : Form value []) : Takes (pure value : StateT Bytes (Except ε) α) Form := by
  intro data value' rest hread
  cases hread
  exact ⟨[], rfl, h⟩

theorem Takes.imp (h : Takes reader Form) (himp : ∀ value bytes, Form value bytes → Form' value bytes) :
    Takes reader Form' := by
  intro data value rest hread
  obtain ⟨bytes, hdata, hform⟩ := h data value rest hread
  exact ⟨bytes, hdata, himp value bytes hform⟩

/-- The second reader completes the form that the first has begun. -/
theorem Takes.bind (h : Takes reader Form)
    (h' : ∀ a bytes, Form a bytes → Takes (f a) fun b bytes' => Result b (bytes ++ bytes')) :
    Takes (reader >>= f) Result := by
  intro data value rest hread
  change (reader data >>= fun result => f result.1 result.2) = _ at hread
  cases hfirst : reader data with
  | error fault =>
      rw [hfirst] at hread
      cases hread
  | ok result =>
      rw [hfirst] at hread
      obtain ⟨bytes, rfl, hform⟩ := h data result.1 result.2 hfirst
      obtain ⟨bytes', hrest, hresult⟩ := h' result.1 bytes hform result.2 value rest hread
      exact ⟨bytes ++ bytes', by rw [hrest, List.append_assoc], hresult⟩

theorem Takes.map (h : Takes reader Form) (g : α → β) (himp : ∀ value bytes, Form value bytes → Result (g value) bytes) :
    Takes (g <$> reader) Result := by
  intro data value rest hread
  change (reader data >>= fun result => pure (g result.1, result.2)) = _ at hread
  cases hfirst : reader data with
  | error fault =>
      rw [hfirst] at hread
      cases hread
  | ok result =>
      rw [hfirst] at hread
      cases hread
      obtain ⟨bytes, hdata, hform⟩ := h data result.1 result.2 hfirst
      exact ⟨bytes, hdata, himp result.1 bytes hform⟩

theorem Takes.produces {P : α → Prop} (h : Takes reader fun value _ => P value) : Produces reader P := by
  intro data value rest hread
  obtain ⟨_, _, hvalue⟩ := h data value rest hread
  exact hvalue

end Takes

/-! ### Encodings that are cut off -/

/-- Of the strict prefixes of `bytes` the reader takes whole those with the property and rejects the others. -/
def AcceptsCut (reader : StateT Bytes (Except ε) α) (bytes : Bytes) (P : Bytes → Prop) : Prop :=
  ∀ cut, cut <+: bytes → cut ≠ bytes →
    (P cut ∧ ∃ value, reader cut = .ok (value, [])) ∨ (¬P cut ∧ ∃ fault, reader cut = .error fault)

/-- The reader rejects every strict prefix of `bytes`. -/
abbrev RejectsCut (reader : StateT Bytes (Except ε) α) (bytes : Bytes) : Prop :=
  AcceptsCut reader bytes fun _ => False

section AcceptsCut

variable {reader : StateT Bytes (Except ε) α} {f : α → StateT Bytes (Except ε) β} {bytes bytes' cut : Bytes} {a : α}
  {P P' : Bytes → Prop}

theorem rejectsCut_nil : RejectsCut reader [] :=
  fun _ hbegins hstrict => (hstrict (List.prefix_nil.mp hbegins)).elim

theorem AcceptsCut.congr (h : AcceptsCut reader bytes P) (hiff : ∀ cut, P' cut ↔ P cut) :
    AcceptsCut reader bytes P' := by
  intro cut hbegins hstrict
  rw [hiff cut]
  exact h cut hbegins hstrict

theorem AcceptsCut.error_iff (h : AcceptsCut reader bytes P) (hbegins : cut <+: bytes) (hstrict : cut ≠ bytes) :
    (∃ fault, (reader cut).map Prod.fst = .error fault) ↔ ¬P cut := by
  rcases h cut hbegins hstrict with ⟨haccepts, value, hread⟩ | ⟨hrejects, fault, hread⟩
  · rw [hread]
    constructor
    · rintro ⟨fault, herror⟩
      cases herror
    · intro hnot
      exact (hnot haccepts).elim
  · rw [hread]
    exact ⟨fun _ => hrejects, fun _ => ⟨fault, rfl⟩⟩

/-- The last field of a record. -/
theorem AcceptsCut.last (h : AcceptsCut reader bytes P) (g : α → β) :
    AcceptsCut (reader >>= fun value => pure (g value)) bytes P := by
  intro cut hbegins hstrict
  change _ ∨ _ ∧ ∃ fault, (reader cut >>= fun result => pure (g result.1, result.2)) = _
  refine (h cut hbegins hstrict).imp (And.imp_right ?_) (And.imp_right ?_)
  · rintro ⟨value, hread⟩
    refine ⟨g value, ?_⟩
    change (reader cut >>= fun result => pure (g result.1, result.2)) = _
    rw [hread]
    rfl
  · rintro ⟨fault, hread⟩
    rw [hread]
    exact ⟨fault, rfl⟩

theorem AcceptsCut.map (h : AcceptsCut reader bytes P) (g : α → β) : AcceptsCut (g <$> reader) bytes P :=
  h.last g

/-- A prefix of two encodings in a row ends in the first or runs on into the second. -/
theorem prefix_append_cases (h : cut <+: bytes ++ bytes') :
    cut <+: bytes ∧ cut ≠ bytes ∨ ∃ kept, cut = bytes ++ kept ∧ kept <+: bytes' := by
  rcases List.prefix_or_prefix_of_prefix h (List.prefix_append bytes bytes') with hfirst | ⟨kept, rfl⟩
  · by_cases heq : cut = bytes
    · exact .inr ⟨[], heq.trans (List.append_nil bytes).symm, List.nil_prefix⟩
    · exact .inl ⟨hfirst, heq⟩
  · exact .inr ⟨kept, rfl, (List.prefix_append_right_inj bytes).mp h⟩

/-- Two readers in a row accept the cuts that the second accepts, when the second fails on the nothing that the
first leaves of a cut. -/
theorem AcceptsCut.bind (hcut : AcceptsCut reader bytes P) (h : Consumes reader bytes a)
    (hstop : ∀ cut value, P cut → ∃ fault, f value [] = .error fault) (h' : AcceptsCut (f a) bytes' P') :
    AcceptsCut (reader >>= f) (bytes ++ bytes') fun cut => ∃ kept, cut = bytes ++ kept ∧ P' kept := by
  intro cut hbegins hstrict
  have hbind : (reader >>= f) cut = reader cut >>= fun result => f result.1 result.2 := rfl
  rw [hbind]
  rcases prefix_append_cases hbegins with ⟨hfirst, hne⟩ | ⟨kept, rfl, hkept⟩
  · right
    constructor
    · rintro ⟨kept, rfl, -⟩
      exact hne (hfirst.eq_of_length_le (List.prefix_append bytes kept).length_le)
    · rcases hcut cut hfirst hne with ⟨haccepts, value, hread⟩ | ⟨-, fault, hread⟩
      · rw [hread]
        exact hstop cut value haccepts
      · rw [hread]
        exact ⟨fault, rfl⟩
  · rw [h kept]
    have hstrict' : kept ≠ bytes' := fun heq => hstrict (congrArg (bytes ++ ·) heq)
    have hsame : (∃ kept', bytes ++ kept = bytes ++ kept' ∧ P' kept') ↔ P' kept := by simp
    beta_reduce
    rw [hsame]
    exact h' kept hkept hstrict'

theorem AcceptsCut.bind_rejects (hcut : AcceptsCut reader bytes P) (h : Consumes reader bytes a)
    (hstop : ∀ cut value, P cut → ∃ fault, f value [] = .error fault) (h' : RejectsCut (f a) bytes') :
    RejectsCut (reader >>= f) (bytes ++ bytes') :=
  (hcut.bind h hstop h').congr fun cut => by simp

theorem RejectsCut.bind (hcut : RejectsCut reader bytes) (h : Consumes reader bytes a)
    (h' : AcceptsCut (f a) bytes' P') :
    AcceptsCut (reader >>= f) (bytes ++ bytes') fun cut => ∃ kept, cut = bytes ++ kept ∧ P' kept :=
  AcceptsCut.bind hcut h (fun _ _ hfalse => hfalse.elim) h'

theorem RejectsCut.bind_rejects (hcut : RejectsCut reader bytes) (h : Consumes reader bytes a)
    (h' : RejectsCut (f a) bytes') : RejectsCut (reader >>= f) (bytes ++ bytes') :=
  AcceptsCut.bind_rejects hcut h (fun _ _ hfalse => hfalse.elim) h'

end AcceptsCut

/-! ### Reading in place -/

/-- From the one offset of the data on, the reader finds the value, and it stops at the other. -/
def Finds (reader : StateT Bytes (Except ε) α) (data : Bytes) (start : Nat) (value : α) (stop : Nat) : Prop :=
  reader (data.drop start) = .ok (value, data.drop stop)

section Finds

variable {reader : StateT Bytes (Except ε) α} {f : α → StateT Bytes (Except ε) β} {data : Bytes} {a : α} {b : β}
  {start middle stop : Nat}

theorem finds_pure (data : Bytes) (start : Nat) (a : α) :
    Finds (pure a : StateT Bytes (Except ε) α) data start a start :=
  rfl

theorem Finds.bind (h : Finds reader data start a middle) (h' : Finds (f a) data middle b stop) :
    Finds (reader >>= f) data start b stop := by
  show (reader (data.drop start) >>= fun result => f result.1 result.2) = _
  rw [h]
  exact h'

theorem Finds.map (h : Finds reader data start a stop) (g : α → β) : Finds (g <$> reader) data start (g a) stop := by
  show (reader (data.drop start) >>= fun result => pure (g result.1, result.2)) = _
  rw [h]
  rfl

/-- The last field of a record. -/
theorem Finds.last (h : Finds reader data start a stop) (g : α → β) :
    Finds (reader >>= fun value => pure (g value)) data start (g a) stop :=
  h.bind (finds_pure data stop (g a))

/-- What is found from the start of the data is what the reader returns for it. -/
theorem Finds.run_fst (h : Finds reader data 0 a stop) : (reader data).map Prod.fst = .ok a := by
  change reader data = _ at h
  rw [h]
  rfl

end Finds

end Chainring.Codec
