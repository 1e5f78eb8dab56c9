/-!
# Register map

Addresses of the board's 32-bit registers, the words with a meaning in them, and the layout of the
memory stacks. Registers are addressed by byte offset; memory addresses are 64 bits wide.
-/

namespace HashBoard

/-- A register address or the contents of a register. -/
abbrev Word := UInt32

/-- A span or a point of time in microseconds. -/
abbrev Micros := Nat

namespace Reg

/-! ## Identity -/

/-- Four ASCII characters naming the board family. -/
def deviceType : Word := 0x0000

/-- Version of the loaded bitstream. -/
def bitstreamVersion : Word := 0x0008

/-- First of the three identity words. -/
def identityLo : Word := 0x1000

/-- Second of the three identity words. -/
def identityMid : Word := 0x1008

/-- Last of the three identity words. -/
def identityHi : Word := 0x7000

/-- Stands in for a device type that cannot be read: `unkn`. -/
def deviceTypeUnknown : Word := 0x756e_6b6e

/-! ## Telemetry -/

/-- Raw die temperature. -/
def temperature : Word := 0x3400

/-- Raw core supply. -/
def supply : Word := 0x3404

/-- Packed health of both memory stacks. -/
def stackHealth : Word := 0x7008

/-- Both stacks calibrated and neither tripped. -/
def stackHealthSafe : Word := 0x3

/-! ## Generator -/

/-- Control and status of the dataset generator. -/
def dagControl : Word := 0x4000

/-- Starts the generator. -/
def dagStart : Word := 0x1

/-- Stops the generator. -/
def dagStop : Word := 0x2

/-- Set in the status when the generator has finished. -/
def dagDone : Word := 0x2

/-- Number of parent nodes when written, progress when read. -/
def dagParentNodes : Word := 0x4008

/-- The range registers of this many mixers fit in front of the status word. -/
def maxMixers : Word := 21

/-- Start of the range of one mixer. -/
def mixerStart (i : Word) : Word := 0x400c + 8 * i

/-- End of the range of one mixer. -/
def mixerEnd (i : Word) : Word := 0x4010 + 8 * i

/-- Bit 31: a dataset is resident; low 16 bits: the epoch it was built for. -/
def dagStatus : Word := 0x40b8

/-- The bit that says a dataset is resident. -/
def dagStatusValid : Word := 0x8000_0000

/-- Control and status of the light cache generator. -/
def cacheControl : Word := 0x40bc

/-- Starts the light cache generator. -/
def cacheStart : Word := 0x1

/-- Resets the light cache generator. -/
def cacheReset : Word := 0x2

/-- Set in the status when the light cache is complete. -/
def cacheDone : Word := 0x2

/-- First of the eight words of the seed. -/
def cacheSeed : Word := 0x40c0

/-! ## Hash core -/

/-- First of the eight words of the header. -/
def header : Word := 0x5000

/-- First of the eight words of the boundary. -/
def target : Word := 0x5020

/-- Number of 128-byte items of the dataset. -/
def itemCount : Word := 0x5040

/-- High word of the number of boundary checks. -/
def checksHi : Word := 0x5044

/-- Low word of the number of boundary checks. -/
def checksLo : Word := 0x5048

/-- Low word of the first nonce to try. -/
def startNonceLo : Word := 0x5064

/-- High word of the first nonce to try. -/
def startNonceHi : Word := 0x5068

/-- Switches the core; shows which nonce slots are full when nonces are polled. -/
def coreEnable : Word := 0x506c

/-- Run, raising an interrupt for each nonce. -/
def coreRunInterrupt : Word := 0x0001_0001

/-- Run, keeping nonces in slots. -/
def coreRunPolled : Word := 0x0001_0000

/-- Empties the nonce slots. -/
def coreClearNonces : Word := 0x0001_0000

/-- Stops the core. -/
def coreOff : Word := 0x0

/-- Patience and intensity; the intensity is in bits 24 to 31. -/
def coreFlags : Word := 0x5080

/-- A counter that moves as long as the core does. -/
def stallCount : Word := 0x5084

/-- Fixed-point reciprocal of the item count. -/
def itemReciprocal : Word := 0x5088

/-- Number of nonce slots. -/
def polledSlots : Nat := 4

/-- High word of a nonce slot. -/
def polledNonceHi (slot : Word) : Word := header + (19 + slot) * 4

/-- Low word of a nonce slot. -/
def polledNonceLo (slot : Word) : Word := header + (28 + slot) * 4

/-- The bit that shows a nonce slot full. -/
def polledReady (slot : Word) : Word := 1 <<< (15 - slot)

/-! ## Clock -/

/-- Resets the clock network. -/
def clockReset : Word := 0x8000

/-- What is written to reset the clock network. -/
def clockResetValue : Word := 0xa

/-- Status of the clock generator. -/
def pllStatus : Word := 0x8004

/-- The clock generator is locked. -/
def pllLocked : Word := 0x1

/-- Multiplier and divider of the oscillator. -/
def pllVco : Word := 0x8200

/-- Divisor from the oscillator to the core. -/
def pllClk0 : Word := 0x8208

/-- Strobes a new clock configuration in. -/
def pllReconfig : Word := 0x825c

/-! ## Power -/

/-- Power of the generator. -/
def dagPower : Word := 0xb000

/-- Generator powered. -/
def dagPowerOn : Word := 0xffff_ffff

/-- Generator powered and held in reset. -/
def dagPowerReset : Word := 0xffff_fffd

/-- Generator powered down. -/
def dagPowerOff : Word := 0x0

/-! ## Regulators -/

/-- Control of the rail A port. -/
def railACtrl : Word := 0x9040

/-- Sends what the rail A port has queued. -/
def railAGo : Word := 0x9100

/-- Queue of the rail A port. -/
def railAFifo : Word := 0x9108

/-- Control of the rail B port. -/
def railBCtrl : Word := 0xa040

/-- Sends what the rail B port has queued. -/
def railBGo : Word := 0xa100

/-- Queue of the rail B port. -/
def railBFifo : Word := 0xa108

/-! ## Memory stacks -/

/-- Where the generator leaves the dataset. -/
def staging : UInt64 := 0x1_0000_0000

/-- Size of the pieces the dataset is spread in. -/
def chunkSize : UInt64 := 0x0100_0000

/-- Number of pieces. -/
def chunkCount : Nat := 256

/-- Where the spread image is copied to. -/
def imageTarget : UInt64 := 0x1_0000_0000

/-- Length of the spread image. -/
def imageLength : UInt64 := 0x1_0000_0000

/-- Size of the pieces a light cache is uploaded in. -/
def uploadPiece : Nat := 65536

/-- The interrupt line of the nonces. -/
def nonceInterrupt : Word := 0x1

end Reg

end HashBoard
