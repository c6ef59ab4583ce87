import Mathlib.Algebra.Group.Nat.Defs
import Mathlib.Data.List.Nodup
import Mathlib.Data.Set.Function
import SourceIndex.Proofs.Cursor.Saved
import SourceIndex.Store.Derive

/-!
# Keys tell apart what they cover

The key of a content covers a path, the content and flags in one message.  The message can be
taken apart again: the path ends at the first zero byte if it has none itself, then eight bytes
say how long the content is, and the rest is the flags.

* `CacheKey.contentPreimage_inj`: messages agree only if path and content do, and the flags are
  written alike.
* `CacheKey.terminated_inj`: flags without zero bytes are written alike only if they are the
  same flags.
* `CacheKey.contentPreimage_ne_ofText`: no such message is what the key of a path covers.

A flag with a zero byte is NOT told apart from two flags.  And a digest is shorter than most
messages, so keys differ only as far as the digests of the messages in use do.
-/

namespace SourceIndex

/-! ## Numbers of a fixed width -/

namespace Bytes

@[simp] theorem length_littleEndian (width value : Nat) :
    (littleEndian width value).length = width := by
  induction width generalizing value with
  | zero => rfl
  | succ width ih => simp [littleEndian, ih]

theorem littleEndian_inj {width a b : Nat} (ha : a < 256 ^ width) (hb : b < 256 ^ width) :
    littleEndian width a = littleEndian width b ↔ a = b := by
  constructor
  · intro hbytes
    induction width generalizing a b with
    | zero => omega
    | succ width ih =>
        rw [littleEndian, littleEndian, List.cons.injEq] at hbytes
        have hlow : a % 256 = b % 256 := by
          simpa using congrArg UInt8.toNat hbytes.1
        have hhigh : a / 256 = b / 256 := by
          refine ih ?_ ?_ hbytes.2
          · rw [Nat.pow_succ] at ha
            omega
          · rw [Nat.pow_succ] at hb
            omega
        omega
  · rintro rfl
    rfl

end Bytes

namespace CacheKey

/-! ## Parts that end at a zero byte -/

/-- The first zero byte tells where a part without zero bytes ends. -/
theorem append_zero_inj {part other rest otherRest : Bytes} (hpart : 0 ∉ part)
    (hother : 0 ∉ other) :
    part ++ 0 :: rest = other ++ 0 :: otherRest ↔ part = other ∧ rest = otherRest := by
  constructor
  · intro hbytes
    -- one part goes on from the other, and what it goes on with starts with a zero byte
    obtain ⟨more, hmore, hrest⟩ | ⟨more, hmore, hrest⟩ := List.append_eq_append_iff.mp hbytes
    · cases more with
      | nil => simp_all
      | cons byte more =>
          cases hrest
          simp [hmore] at hother
    · cases more with
      | nil => simp_all
      | cons byte more =>
          cases hrest
          simp [hmore] at hpart
  · rintro ⟨rfl, rfl⟩
    rfl

/-- Flags as they stand in a message: one behind the other, each with a zero byte at its end. -/
def terminated (flags : List String) : Bytes :=
  flags.flatMap fun flag => Bytes.ofText flag ++ [0]

theorem terminated_cons (flag : String) (flags : List String) :
    terminated (flag :: flags) = Bytes.ofText flag ++ 0 :: terminated flags := by
  simp [terminated]

/-- The number of flags, their order and the empty ones among them can be read off. -/
theorem terminated_inj {flags others : List String} (hflags : ∀ flag ∈ flags, 0 ∉ Bytes.ofText flag)
    (hothers : ∀ flag ∈ others, 0 ∉ Bytes.ofText flag) :
    terminated flags = terminated others ↔ flags = others := by
  constructor
  · intro hbytes
    induction flags generalizing others with
    | nil =>
        cases others with
        | nil => rfl
        | cons other others => simp [terminated] at hbytes
    | cons flag flags ih =>
        cases others with
        | nil => simp [terminated] at hbytes
        | cons other others =>
            rw [List.forall_mem_cons] at hflags hothers
            rw [terminated_cons, terminated_cons, append_zero_inj hflags.1 hothers.1,
              Bytes.ofText_inj] at hbytes
            rw [hbytes.1, ih hflags.2 hothers.2 hbytes.2]
  · rintro rfl
    rfl

/-! ## Messages -/

theorem contentPreimage_eq (path : String) (content : Bytes) (flags : List String) :
    contentPreimage path content flags =
      Bytes.ofText path ++ 0 :: (Bytes.littleEndian 8 content.length ++
        (content ++ terminated flags)) :=
  rfl

section
variable {path other : String} {content otherContent : Bytes} {flags otherFlags : List String}

theorem contentPreimage_inj (hpath : 0 ∉ Bytes.ofText path) (hother : 0 ∉ Bytes.ofText other)
    (hcontent : content.length < 2 ^ 64) (hotherContent : otherContent.length < 2 ^ 64) :
    contentPreimage path content flags = contentPreimage other otherContent otherFlags ↔
      path = other ∧ content = otherContent ∧ terminated flags = terminated otherFlags := by
  rw [contentPreimage_eq, contentPreimage_eq, append_zero_inj hpath hother, Bytes.ofText_inj]
  refine and_congr_right fun _ => ?_
  constructor
  · intro hbytes
    obtain ⟨hlength, hrest⟩ := List.append_inj hbytes (by simp)
    rw [Bytes.littleEndian_inj hcontent hotherContent] at hlength
    exact List.append_inj hrest hlength
  · rintro ⟨rfl, hflags⟩
    rw [hflags]

/-- The message of a content has a zero byte. -/
theorem contentPreimage_ne_ofText (path : String) (content : Bytes) (flags : List String)
    (hother : 0 ∉ Bytes.ofText other) :
    contentPreimage path content flags ≠ Bytes.ofText other := by
  intro hbytes
  apply hother
  rw [← hbytes, contentPreimage_eq]
  simp

/-! ## Digests -/

/-- Among messages with digests of their own, a key tells its message. -/
theorem mk_hash_inj {messages : Set Bytes} (hdigests : Set.InjOn Blake3.hash messages)
    {message another : Bytes} (hmessage : message ∈ messages) (hanother : another ∈ messages) :
    (⟨Blake3.hash message⟩ : CacheKey) = ⟨Blake3.hash another⟩ ↔ message = another := by
  rw [CacheKey.mk.injEq]
  exact hdigests.eq_iff hmessage hanother

theorem derive_content_of_read {files : FileTree} (hread : files.read path = .ok content) :
    KeyStrategy.content.derive files path flags = .ok (ofContent path content flags) := by
  simp only [KeyStrategy.derive, hread]

/-- **Keys separate what they cover.**  For paths without zero bytes and contents whose length
fits in eight bytes, two messages agree exactly if path and content do and the flags are written
alike.  If the flags have no zero bytes either, they must be the same flags in the same order.
No message of a content is the message of a path.  As far as the messages in use have digests of
their own, all of this holds of the keys, so a file never has a key under one strategy that a
file has under the other. -/
theorem ofContent_separates (flags otherFlags : List String) (hpath : 0 ∉ Bytes.ofText path)
    (hother : 0 ∉ Bytes.ofText other) (hcontent : content.length < 2 ^ 64)
    (hotherContent : otherContent.length < 2 ^ 64) :
    (contentPreimage path content flags = contentPreimage other otherContent otherFlags ↔
      path = other ∧ content = otherContent ∧ terminated flags = terminated otherFlags) ∧
    ((∀ flag ∈ flags, 0 ∉ Bytes.ofText flag) → (∀ flag ∈ otherFlags, 0 ∉ Bytes.ofText flag) →
      (contentPreimage path content flags = contentPreimage other otherContent otherFlags ↔
        path = other ∧ content = otherContent ∧ flags = otherFlags)) ∧
    (∀ anyPath anyContent anyFlags,
      contentPreimage anyPath anyContent anyFlags ≠ Bytes.ofText other) ∧
    ∀ messages : Set Bytes, Set.InjOn Blake3.hash messages →
      contentPreimage path content flags ∈ messages →
      (contentPreimage other otherContent otherFlags ∈ messages →
        (ofContent path content flags = ofContent other otherContent otherFlags ↔
          path = other ∧ content = otherContent ∧ terminated flags = terminated otherFlags) ∧
        ((∀ flag ∈ flags, 0 ∉ Bytes.ofText flag) → (∀ flag ∈ otherFlags, 0 ∉ Bytes.ofText flag) →
          (ofContent path content flags = ofContent other otherContent otherFlags ↔
            path = other ∧ content = otherContent ∧ flags = otherFlags))) ∧
      (Bytes.ofText other ∈ messages →
        ofContent path content flags ≠ ofPath other ∧
        ∀ files others : FileTree, files.read path = .ok content →
          KeyStrategy.content.derive files path flags ≠
            KeyStrategy.path.derive others other otherFlags) := by
  have hparts : contentPreimage path content flags =
        contentPreimage other otherContent otherFlags ↔
      path = other ∧ content = otherContent ∧ terminated flags = terminated otherFlags :=
    contentPreimage_inj hpath hother hcontent hotherContent
  have hflagParts (hflags : ∀ flag ∈ flags, 0 ∉ Bytes.ofText flag)
      (hothers : ∀ flag ∈ otherFlags, 0 ∉ Bytes.ofText flag) :
      contentPreimage path content flags = contentPreimage other otherContent otherFlags ↔
        path = other ∧ content = otherContent ∧ flags = otherFlags := by
    rw [hparts, terminated_inj hflags hothers]
  refine ⟨hparts, hflagParts, fun _ _ _ => contentPreimage_ne_ofText _ _ _ hother, ?_⟩
  intro messages hdigests hmessage
  constructor
  · intro hanother
    have hkeys : ofContent path content flags = ofContent other otherContent otherFlags ↔
        contentPreimage path content flags = contentPreimage other otherContent otherFlags :=
      mk_hash_inj hdigests hmessage hanother
    exact ⟨hkeys.trans hparts, fun hflags hothers => hkeys.trans (hflagParts hflags hothers)⟩
  · intro hanother
    have hkeys : ofContent path content flags ≠ ofPath other := by
      intro hsame
      exact contentPreimage_ne_ofText _ _ _ hother
        ((mk_hash_inj hdigests hmessage hanother).mp hsame)
    refine ⟨hkeys, fun files others hread => ?_⟩
    rw [derive_content_of_read hread]
    exact fun hsame => hkeys (Except.ok.inj hsame)

end

/-- A flag with a zero byte is written like two flags. -/
example : terminated ["-a\x00-b"] = terminated ["-a", "-b"] := by decide +kernel

/-! ## Files with messages that look alike -/

namespace KeySample

/-- A content that ends like a flag. -/
def content : Bytes :=
  Bytes.ofText "-x" ++ [0]

/-- Without flags, with one, with an empty one behind it, and a path alone. -/
def messages : List Bytes :=
  [contentPreimage "f.c" content [], contentPreimage "f.c" [] ["-x"],
    contentPreimage "f.c" [] ["-x", ""], Bytes.ofText "f.c"]

theorem digests : Set.InjOn Blake3.hash {message | message ∈ messages} := by
  have hnodup : (messages.map Blake3.hash).Nodup := by decide +kernel
  exact fun one hone another hanother =>
    List.inj_on_of_nodup_map hnodup hone hanother

end KeySample

theorem ofContent_separates_keySample :
    ofContent "f.c" KeySample.content [] ≠ ofContent "f.c" [] ["-x"] ∧
      ofContent "f.c" [] ["-x"] ≠ ofContent "f.c" [] ["-x", ""] ∧
      ofContent "f.c" [] ["-x"] ≠ ofPath "f.c" := by
  have hpath : 0 ∉ Bytes.ofText "f.c" := by decide +kernel
  have hflags : ∀ flag ∈ ["-x", ""], 0 ∉ Bytes.ofText flag := by decide +kernel
  have hempty : ([] : Bytes).length < 2 ^ 64 := by decide
  have hlength : KeySample.content.length < 2 ^ 64 := by decide +kernel
  obtain ⟨-, -, -, hone⟩ := ofContent_separates [] ["-x"] hpath hpath hlength hempty
  obtain ⟨-, -, -, htwo⟩ := ofContent_separates ["-x"] ["-x", ""] hpath hpath hempty hempty
  obtain ⟨honeKeys, -⟩ := hone _ KeySample.digests (by simp [KeySample.messages])
  obtain ⟨htwoKeys, hpathKeys⟩ := htwo _ KeySample.digests (by simp [KeySample.messages])
  refine ⟨?_, ?_, (hpathKeys (by simp [KeySample.messages])).1⟩
  · rw [Ne, (honeKeys (by simp [KeySample.messages])).1]
    decide +kernel
  · have hone : ∀ flag ∈ ["-x"], 0 ∉ Bytes.ofText flag :=
      fun flag hflag => hflags flag (List.mem_append_left [""] hflag)
    rw [Ne, (htwoKeys (by simp [KeySample.messages])).2 hone hflags]
    decide

end CacheKey
end SourceIndex
