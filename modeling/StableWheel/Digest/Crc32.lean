/-! The CRC-32 that archives store beside each member. -/
namespace StableWheel.Digest.Crc32

/-- One bit: the reflected polynomial is added when a one falls out. -/
def step (crc : UInt32) : UInt32 :=
  if crc &&& 1 = 1 then (crc >>> 1) ^^^ 0xedb88320 else crc >>> 1

/-- One byte, as eight bits. -/
def push (crc : UInt32) (b : UInt8) : UInt32 :=
  let mixed := crc ^^^ b.toUInt32
  step (step (step (step (step (step (step (step mixed)))))))

/-- The checksum of a message. -/
def checksum (message : ByteArray) : UInt32 :=
  ~~~ (message.toList.foldl push 0xffffffff)

end StableWheel.Digest.Crc32
