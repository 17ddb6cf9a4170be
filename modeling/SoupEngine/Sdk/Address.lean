import SoupEngine.Sdk.Frame

/-!
# Addresses as the SDK renders them

`decodeAddr` turns the 18 bytes of an address into text, by way of `net.IP`, which has 16 bytes, an
IPv4 address being one whose first twelve bytes are those of `::ffff:0:0`.
-/

namespace SoupEngine.Sdk

/-- `strconv.Itoa`, of a number that is not negative. -/
def itoa (n : ℕ) : List Char := Nat.toDigits 10 n

/-- `net.IPv4`. -/
def netIPv4 (a b c d : U8) : Bytes := List.replicate 10 0 ++ [0xFF, 0xFF] ++ [a, b, c, d]

def dotted (octets : Bytes) : List Char := ['.'].intercalate (octets.map fun b => itoa b.toNat)

/-- The 16-bit groups of an IPv6 address. -/
def groups : Bytes → List ℕ
  | hi :: lo :: rest => (256 * hi.toNat + lo.toNat) :: groups rest
  | _ => []

def colons (gs : List ℕ) : List Char := [':'].intercalate (gs.map (Nat.toDigits 16))

/-- The first of the longest runs of at least two groups that are 0: where it starts and where it
ends. -/
def zeroRun (gs : List ℕ) : Option (ℕ × ℕ) :=
  (List.range gs.length).foldl
    (fun z i =>
      let l := ((gs.drop i).takeWhile fun g => decide (g = 0)).length
      if 2 ≤ l ∧ ∀ run ∈ z, run.2 - run.1 < l then some (i, i + l) else z) none

/-- An IPv6 address, the longest run of zeros left out. -/
def ip6String (ip : Bytes) : List Char :=
  match zeroRun (groups ip) with
  | none => colons (groups ip)
  | some (i, j) => colons ((groups ip).take i) ++ [':', ':'] ++ colons ((groups ip).drop j)

/-- `IP.String`, of 16 bytes. -/
def ipString (ip : Bytes) : List Char :=
  if ip.take 12 = List.replicate 10 0 ++ [0xFF, 0xFF] then dotted (ip.drop 12) else ip6String ip

/-- `net.JoinHostPort`. -/
def joinHostPort (host port : List Char) : List Char :=
  if ':' ∈ host then '[' :: host ++ [']', ':'] ++ port else host ++ ':' :: port

def decodeAddr (b : Bytes) : String :=
  let port := itoa (fromLe 16 (slice b 16 18)).toNat
  let v4 := (slice b 4 16).all fun x => decide (x = 0)
  if v4 = true then
    String.ofList
      (joinHostPort (ipString (netIPv4 (b.getD 0 0) (b.getD 1 0) (b.getD 2 0) (b.getD 3 0))) port)
  else String.ofList (joinHostPort (ipString (slice b 0 16)) port)

/-- `parseSessionOpen`, with the text of the address. -/
def parseSessionOpenAddr (body : Bytes) : Except FrameError (U64 × String × Bytes) :=
  (parseSessionOpen body).map fun (sess, addr, token) => (sess, decodeAddr addr, token)

/-! ## Text -/

theorem ipString_netIPv4 (a b c d : U8) : ipString (netIPv4 a b c d) = dotted [a, b, c, d] :=
  if_pos rfl

/-- There is no colon in a dotted address. -/
theorem colon_not_mem_dotted (a b c d : U8) : ':' ∉ dotted [a, b, c, d] := by
  have hdigits : ∀ x : U8, ':' ∉ itoa x.toNat := by decide +kernel
  simp [dotted, List.intercalate, hdigits]

/-- No dotted address begins with a bracket. -/
theorem head_dotted (a b c d : U8) (rest : List Char) :
    (dotted [a, b, c, d] ++ rest).head? ≠ some '[' := by
  have hdigits : ∀ x : U8, (itoa x.toNat).head? ≠
    some '[' ∧ (itoa x.toNat).head? ≠ none := by decide +kernel
  obtain ⟨hbracket, hsome⟩ := hdigits a
  obtain ⟨ch, hch⟩ := Option.ne_none_iff_exists'.1 hsome
  simp only [dotted, List.intercalate, List.map_cons, List.intersperse, List.flatten_cons,
    List.append_assoc]
  rw [List.head?_append, hch]
  rw [hch] at hbracket
  exact hbracket

/-- There is a colon in an IPv6 address. -/
theorem colon_mem_ip6String {ip : Bytes} (h : 4 ≤ ip.length) : ':' ∈ ip6String ip := by
  unfold ip6String
  split
  · match ip, h with
    | a :: b :: c :: d :: rest, _ => simp [groups, colons, List.intercalate]
  · simp

end SoupEngine.Sdk
