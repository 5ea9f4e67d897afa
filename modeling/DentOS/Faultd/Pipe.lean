/-
  Reading and writing a pipe (faultd.c): `read_size__`, `read_until__` and `write_size__`.

  A read of `n` bytes gives as many as the pipe has at the moment, at least one, or is interrupted
  (`EINTR`), or fails; when there is nothing to read it blocks.  So a pipe is a list of bytes with marks
  between them (`Item`): a read stops at a mark, and one that begins at a mark is interrupted.  Every way
  to split the bytes into reads is a way to put marks between them.  A read does not come to an end of
  the file, because the server keeps the pipe open for writing.

  What the loops get does not depend on the marks: `readSize_eq` and `readUntil_eq`, with what they do
  when too little has been written, `readSize_blocks` and `readUntil_blocks`.
-/

namespace DentOS.Faultd

/-! ## Pipes: the bytes in them, however they are cut by the reads -/

/-- What a read from the pipe comes upon. -/
inductive Item where
  | byte (b : UInt8)
  /-- A read is cut short here, or interrupted. -/
  | cut
  /-- A read fails here. -/
  | error
  deriving DecidableEq

/-- What is in the pipe, from the front. -/
abbrev Pipe := List Item

/-- The bytes in a pipe. -/
def bytes : Pipe → List UInt8
  | [] => []
  | .byte b :: p => b :: bytes p
  | _ :: p => bytes p

/-- No read fails. -/
def Sound (p : Pipe) : Prop := .error ∉ p

/-- What a read comes to. -/
inductive Got where
  | bytes (bs : List UInt8)
  | interrupted
  | failed
  | blocks

/-- Up to `n` bytes, up to a mark. -/
def takeBytes : Nat → Pipe → List UInt8 × Pipe
  | 0, p => ([], p)
  | n + 1, .byte b :: p => let (bs, p) := takeBytes n p; (b :: bs, p)
  | _ + 1, .cut :: p => ([], p)
  | _ + 1, p => ([], p)

/-- `read`. -/
def pipeRead (n : Nat) : Pipe → Got × Pipe
  | [] => (.blocks, [])
  | .cut :: p => (.interrupted, p)
  | .error :: p => (.failed, p)
  | .byte b :: p => let (bs, p) := takeBytes n (.byte b :: p); (.bytes bs, p)

/-! ## The loops that read a record and a text -/

/-- What is taken and what is left are no more than there was. -/
theorem takeBytes_length : ∀ (n : Nat) (p : Pipe),
    (takeBytes n p).2.length + (takeBytes n p).1.length ≤ p.length
  | 0, p => Nat.le_refl _
  | n + 1, [] => Nat.le_refl _
  | n + 1, .cut :: p => Nat.le_succ _
  | n + 1, .error :: p => Nat.le_refl _
  | n + 1, .byte b :: p => by
      have ih := takeBytes_length n p
      show (takeBytes n p).2.length + ((takeBytes n p).1.length + 1) ≤ p.length + 1
      omega

/-- A read that has not got everything has taken something out of the pipe. -/
theorem pipeRead_length {n : Nat} {p p' : Pipe} {bs : List UInt8}
    (h : pipeRead n p = (.bytes bs, p')) (hn : n - bs.length ≠ 0) : p'.length < p.length := by
  cases p with
  | nil => cases h
  | cons item p =>
      cases item with
      | cut => cases h
      | error => cases h
      | byte b =>
          cases n with
          | zero => exact absurd (Nat.zero_sub _) hn
          | succ n =>
              have hle := takeBytes_length n p
              obtain ⟨hbs, rfl⟩ := Prod.mk.inj h
              show (takeBytes n p).2.length < p.length + 1
              omega

/-- `read_size__`: none when it blocks, and an error when a read fails. -/
def readSize (remaining : Nat) (p : Pipe) : Option (Except Unit (List UInt8) × Pipe) :=
  match _h : pipeRead remaining p with
  | (.blocks, _) => none
  | (.interrupted, p') => readSize remaining p'
  | (.failed, p') => some (.error (), p')
  | (.bytes bs, p') =>
      if _hremaining : remaining - bs.length = 0 then some (.ok bs, p')
      else
        (readSize (remaining - bs.length) p').map fun (src, p) => (src.map (bs ++ ·), p)
termination_by p.length
decreasing_by
  · cases p with
    | nil => cases _h
    | cons item p =>
        cases item with
        | cut =>
            obtain ⟨-, rfl⟩ := Prod.mk.inj _h
            exact Nat.lt_succ_self _
        | error => cases _h
        | byte b => cases _h
  · exact pipeRead_length _h _hremaining

/-- `dst[count] = c`, where that is within `size`. -/
def store (size : Nat) (dst : List UInt8) (count : Nat) (c : UInt8) : List UInt8 :=
  if count < size then dst.set count c else dst

/-- `read_until__`, which reads one byte at a time: the count, and the buffer.  (The count is an `int`,
    which a text of 2³¹ bytes would overflow.) -/
def readUntil (terminator : UInt8) (size : Nat) :
    Nat → List UInt8 → Pipe → Option (Int × List UInt8 × Pipe)
  | _, _, [] => none
  | count, dst, .cut :: p => readUntil terminator size count dst p
  | _, dst, .error :: p => some (-1, dst, p)
  | count, dst, .byte c :: p =>
      let dst := store size dst count c
      if c = terminator then some (count, dst, p)
      else readUntil terminator size (count + 1) dst p

/-- What a write comes to. -/
inductive Wrote where
  | interrupted
  | failed
  | wrote (n : Nat)
  deriving DecidableEq

/-- `write_size__`, with what each write comes to: what it returns, and what it has put into the pipe. -/
def writeSize (size : Nat) : List Wrote → List UInt8 → Option (Int × List UInt8 × List Wrote)
  | [], _ => none
  | .interrupted :: ws, src => writeSize size ws src
  | .failed :: ws, _ => some (-1, [], ws)
  | .wrote n :: ws, src =>
      if src.drop n = [] then some (size, src, ws)
      else
        match writeSize size ws (src.drop n) with
        | none => none
        | some (rv, written, ws) => some (rv, src.take n ++ written, ws)

/-! ## What a read gets: bytes from the front -/

/-- Behind a sound pipe's first item is a sound pipe. -/
theorem Sound.tail {item : Item} {p : Pipe} (h : Sound (item :: p)) : Sound p :=
  fun hmem => h (List.mem_cons_of_mem _ hmem)

/-- Taking splits the bytes of the pipe, and takes no more than was asked for. -/
theorem takeBytes_spec {p : Pipe} (hp : Sound p) (n : Nat) :
    bytes p = (takeBytes n p).1 ++ bytes (takeBytes n p).2 ∧ (takeBytes n p).1.length ≤ n
      ∧ Sound (takeBytes n p).2 := by
  induction n generalizing p with
  | zero => exact ⟨rfl, Nat.le_refl _, hp⟩
  | succ n ih =>
      cases p with
      | nil => exact ⟨rfl, Nat.zero_le _, hp⟩
      | cons item p =>
          cases item with
          | cut => exact ⟨rfl, Nat.zero_le _, hp.tail⟩
          | error => exact absurd (List.mem_cons_self ..) hp
          | byte b =>
              obtain ⟨hbytes, hlength, hsound⟩ := ih hp.tail
              exact ⟨congrArg (b :: ·) hbytes, Nat.succ_le_succ hlength, hsound⟩

/-- What a read takes out of the pipe. -/
def Gets (n : Nat) (p : Pipe) : Got × Pipe → Prop
  | (.blocks, _) => bytes p = []
  | (.interrupted, p') => bytes p' = bytes p ∧ Sound p'
  | (.failed, _) => False
  | (.bytes bs, p') => bytes p = bs ++ bytes p' ∧ bs.length ≤ n ∧ Sound p'

/-- **A read** gets the bytes in front, or fails where the pipe does. -/
theorem pipeRead_gets {p : Pipe} (hp : Sound p) (n : Nat) : Gets n p (pipeRead n p) := by
  cases p with
  | nil => exact rfl
  | cons item p =>
      cases item with
      | cut => exact ⟨rfl, hp.tail⟩
      | error => exact absurd (List.mem_cons_self ..) hp
      | byte b => exact takeBytes_spec hp n

/-- The same, for a read whose result is known. -/
theorem gets_of_eq {n : Nat} {p : Pipe} {got : Got × Pipe} (hp : Sound p)
    (h : pipeRead n p = got) : Gets n p got :=
  h ▸ pipeRead_gets hp n

/-- **`read_size__` gets what has been written**, in however many reads. -/
theorem readSize_eq {n : Nat} {p : Pipe} (hp : Sound p) (hpos : 0 < n) {src rest : List UInt8}
    (hbytes : bytes p = src ++ rest) (hn : src.length = n) :
    ∃ p', readSize n p = some (.ok src, p') ∧ bytes p' = rest ∧ Sound p' := by
  fun_induction readSize n p generalizing src with
  | case1 n p _ h =>
      have hempty : bytes p = [] := gets_of_eq hp h
      rw [hempty, eq_comm, List.append_eq_nil_iff] at hbytes
      simp_all
  | case2 n p p' h ih =>
      obtain ⟨hp', hsound⟩ : bytes p' = bytes p ∧ Sound p' := gets_of_eq hp h
      exact ih hsound hpos (hp'.trans hbytes) hn
  | case3 n p _ h => exact (gets_of_eq hp h : False).elim
  | case4 n p bs p' h hdone =>
      obtain ⟨hp', hle, hsound⟩ : bytes p = bs ++ bytes p' ∧ bs.length ≤ n ∧ Sound p' :=
        gets_of_eq hp h
      obtain ⟨rfl, hrest⟩ := List.append_inj (hp'.symm.trans hbytes) (by omega)
      exact ⟨p', rfl, hrest, hsound⟩
  | case5 n p bs p' h hmore ih =>
      obtain ⟨hp', hle, hsound⟩ : bytes p = bs ++ bytes p' ∧ bs.length ≤ n ∧ Sound p' :=
        gets_of_eq hp h
      -- what this read got is the front of `src`
      obtain ⟨src', rfl⟩ : bs <+: src :=
        List.prefix_of_prefix_length_le (hp' ▸ List.prefix_append ..)
          (hbytes ▸ List.prefix_append ..) (by omega)
      rw [List.length_append] at hn
      have hsrc' : bytes p' = src' ++ rest := by
        rw [hp', List.append_assoc] at hbytes
        exact List.append_cancel_left hbytes
      obtain ⟨p'', hread, hrest, hsound'⟩ := ih hsound (by omega) hsrc' (by omega)
      exact ⟨p'', by rw [hread]; rfl, hrest, hsound'⟩

/-- **`read_size__` waits** for what has not been written yet. -/
theorem readSize_blocks {n : Nat} {p : Pipe} (hp : Sound p) (h : (bytes p).length < n) :
    readSize n p = none := by
  fun_induction readSize n p with
  | case1 => rfl
  | case2 n p p' hread ih =>
      obtain ⟨hp', hsound⟩ : bytes p' = bytes p ∧ Sound p' := gets_of_eq hp hread
      exact ih hsound (hp' ▸ h)
  | case3 n p _ hread => exact (gets_of_eq hp hread : False).elim
  | case4 n p bs p' hread hdone =>
      obtain ⟨hp', -, -⟩ : bytes p = bs ++ bytes p' ∧ bs.length ≤ n ∧ Sound p' :=
        gets_of_eq hp hread
      rw [hp', List.length_append] at h
      omega
  | case5 n p bs p' hread hmore ih =>
      obtain ⟨hp', hle, hsound⟩ : bytes p = bs ++ bytes p' ∧ bs.length ≤ n ∧ Sound p' :=
        gets_of_eq hp hread
      rw [hp', List.length_append] at h
      rw [ih hsound (by omega), Option.map_none]

/-! ## What is stored of a text that may be longer than the buffer -/

/-- The buffer after all of `cs`. -/
def storeAll (size : Nat) : List UInt8 → Nat → List UInt8 → List UInt8
  | dst, _, [] => dst
  | dst, count, c :: cs => storeAll size (store size dst count c) (count + 1) cs

/-- Behind the end of the buffer nothing is stored. -/
theorem storeAll_full {size : Nat} {dst cs : List UInt8} {count : Nat} (h : size ≤ count) :
    storeAll size dst count cs = dst := by
  induction cs generalizing count with
  | nil => rfl
  | cons c cs ih =>
      have hstore : store size dst count c = dst := if_neg (by omega)
      rw [storeAll, hstore, ih (by omega)]

/-- A buffer that is filled up to `pre`. -/
theorem storeAll_append (cs pre dst : List UInt8) :
    storeAll (pre.length + dst.length) (pre ++ dst) pre.length cs
      = pre ++ (cs.take dst.length ++ dst.drop cs.length) := by
  induction cs generalizing pre dst with
  | nil => simp [storeAll]
  | cons c cs ih =>
      cases dst with
      | nil => simp [storeAll_full]
      | cons d dst =>
          have hstore : store (pre.length + (d :: dst).length) (pre ++ d :: dst) pre.length c
              = (pre ++ [c]) ++ dst := by
            simp [store]
          have hlength : pre.length + (d :: dst).length = (pre ++ [c]).length + dst.length := by
            simp only [List.length_append, List.length_cons, List.length_nil]
            omega
          have hcount : pre.length + 1 = (pre ++ [c]).length := by simp
          rw [storeAll, hstore, hlength, hcount, ih]
          simp

/-- A buffer of `size` zeros: what does not fit is dropped. -/
theorem storeAll_zeros (size : Nat) (cs : List UInt8) :
    storeAll size (List.replicate size 0) 0 cs
      = cs.take size ++ List.replicate (size - cs.length) 0 := by
  have h := storeAll_append cs [] (List.replicate size 0)
  simpa using h

/-- **`read_until__` takes out everything up to the terminator**, also what it does not store. -/
theorem readUntil_eq {terminator : UInt8} {p : Pipe} (hp : Sound p) {text rest : List UInt8}
    (hbytes : bytes p = text ++ terminator :: rest) (htext : terminator ∉ text) (size count : Nat)
    (dst : List UInt8) :
    ∃ p', readUntil terminator size count dst p
        = some (((count + text.length : Nat) : Int),
            storeAll size dst count (text ++ [terminator]), p')
      ∧ bytes p' = rest ∧ Sound p' := by
  induction p generalizing text count dst with
  | nil => simp [bytes] at hbytes
  | cons item p ih =>
      cases item with
      | cut => exact ih hp.tail hbytes htext count dst
      | error => exact absurd (List.mem_cons_self ..) hp
      | byte c =>
          cases text with
          | nil =>
              obtain ⟨rfl, hrest⟩ := List.cons.inj hbytes
              exact ⟨p, by simp [readUntil, storeAll], hrest, hp.tail⟩
          | cons b text =>
              obtain ⟨rfl, hrest⟩ := List.cons.inj hbytes
              rw [List.mem_cons, not_or] at htext
              obtain ⟨p', hread, hp'⟩ :=
                ih hp.tail hrest htext.2 (count + 1) (store size dst count c)
              refine ⟨p', ?_, hp'⟩
              rw [readUntil, if_neg (Ne.symm htext.1), hread, List.length_cons, List.cons_append,
                storeAll, Nat.add_right_comm, Nat.add_assoc]

/-- **`read_until__` waits** for the terminator. -/
theorem readUntil_blocks {terminator : UInt8} {p : Pipe} (hp : Sound p)
    (h : terminator ∉ bytes p) (size count : Nat) (dst : List UInt8) :
    readUntil terminator size count dst p = none := by
  induction p generalizing count dst with
  | nil => rfl
  | cons item p ih =>
      cases item with
      | cut => exact ih hp.tail h count dst
      | error => exact absurd (List.mem_cons_self ..) hp
      | byte c =>
          rw [bytes, List.mem_cons, not_or] at h
          rw [readUntil, if_neg (Ne.symm h.1), ih hp.tail h.2]

/-! ## What is written arrives in the pieces that a schedule cuts -/

/-- **`write_size__` writes everything** when no write fails, in however many writes. -/
theorem writeSize_eq {size : Nat} {ws ws' : List Wrote} {src written : List UInt8} {rv : Int}
    (hws : .failed ∉ ws) (h : writeSize size ws src = some (rv, written, ws')) :
    rv = size ∧ written = src ∧ .failed ∉ ws' := by
  fun_induction writeSize size ws src generalizing rv written ws' with
  | case1 => cases h
  | case2 ws src ih => exact ih (fun hmem => hws (List.mem_cons_of_mem _ hmem)) h
  | case3 => exact absurd (List.mem_cons_self ..) hws
  | case4 n ws src hdone =>
      cases h
      exact ⟨rfl, rfl, fun hmem => hws (List.mem_cons_of_mem _ hmem)⟩
  | case5 => cases h
  | case6 n ws src hmore rv' written' ws'' hread ih =>
      obtain ⟨rfl, rfl, hws'⟩ := ih (fun hmem => hws (List.mem_cons_of_mem _ hmem)) hread
      cases h
      exact ⟨rfl, List.take_append_drop .., hws'⟩

end DentOS.Faultd
