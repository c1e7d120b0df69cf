/-! The kinds of blocks, their shapes, and their groups in the palette. -/

namespace BlockScript

inductive BlockKind where
  | moveSteps | turnRight | turnLeft | goTo | goToXY | pointTowards | changeX | setX | changeY
  | setY | bounce | xPosition | yPosition | direction
  | sayFor | say | thinkFor | think | switchCostume | nextCostume | changeSize | setSize
  | showSprite | hideSprite | costumeNumber | size
  | playSound | playSoundUntilDone | stopSounds | changeVolume | setVolume | volume
  | whenFlagClicked | whenSpriteClicked | broadcast | whenReceived
  | wait | repeatTimes | forever | ifThen | waitUntil
  | ask | touching | keyPressed | answer | mouseX | mouseY
  | add | subtract | multiply | divide | pickRandom | greater | less | equals | both | either
  | negation | join | letterOf | length | contains | remainder | round | function
  | setVariable | changeVariable | readVariable
  | defineScript | runScript
  | eraseAll | penDown | penUp | setPenColor | setPenSize
  | createObject
  deriving DecidableEq

/-- Hats start a chain, stack blocks are its steps, reporters stand in the slots of other
blocks, and wrap blocks are steps with a body. -/
inductive Shape where
  | hat | stack | reporter | wrap
  deriving DecidableEq

inductive Category where
  | motion | looks | sound | events | control | sensing | operators | «variables» | myBlocks
  | pen | threeD
  deriving DecidableEq

namespace Category

def name : Category → String
  | motion => "Motion"
  | looks => "Looks"
  | sound => "Sound"
  | events => "Events"
  | control => "Control"
  | sensing => "Sensing"
  | operators => "Operators"
  | «variables» => "Variables"
  | myBlocks => "MyBlocks"
  | pen => "Pen"
  | threeD => "ThreeD"

def label : Category → String
  | myBlocks => "My Blocks"
  | threeD => "3D"
  | c => c.name

def blocks : Category → List BlockKind
  | motion =>
    [.moveSteps, .turnRight, .turnLeft, .goTo, .goToXY, .pointTowards, .changeX, .setX, .changeY,
     .setY, .bounce, .xPosition, .yPosition, .direction]
  | looks =>
    [.sayFor, .say, .thinkFor, .think, .switchCostume, .nextCostume, .changeSize, .setSize,
     .showSprite, .hideSprite, .costumeNumber, .size]
  | sound =>
    [.playSound, .playSoundUntilDone, .stopSounds, .changeVolume, .setVolume, .volume]
  | events =>
    [.whenFlagClicked, .whenSpriteClicked, .broadcast, .whenReceived]
  | control =>
    [.wait, .repeatTimes, .forever, .ifThen, .waitUntil]
  | sensing =>
    [.ask, .touching, .keyPressed, .answer, .mouseX, .mouseY]
  | operators =>
    [.add, .subtract, .multiply, .divide, .pickRandom, .greater, .less, .equals, .both, .either,
     .negation, .join, .letterOf, .length, .contains, .remainder, .round, .function]
  | «variables» =>
    [.setVariable, .changeVariable, .readVariable]
  | myBlocks =>
    [.defineScript, .runScript]
  | pen =>
    [.eraseAll, .penDown, .penUp, .setPenColor, .setPenSize]
  | threeD =>
    [.createObject]

end Category

namespace BlockKind

/-- The identifier of a kind, words in capitals joined by underscores. -/
def identifier : BlockKind → String
  | moveSteps => "MOTION_MOVE_STEPS"
  | turnRight => "MOTION_TURN_CW"
  | turnLeft => "MOTION_TURN_CCW"
  | goTo => "MOTION_GOTO"
  | goToXY => "MOTION_GOTO_XY"
  | pointTowards => "MOTION_POINT_TOWARDS"
  | changeX => "MOTION_CHANGE_X_BY"
  | setX => "MOTION_SET_X"
  | changeY => "MOTION_CHANGE_Y_BY"
  | setY => "MOTION_SET_Y"
  | bounce => "MOTION_IF_ON_EDGE_BOUNCE"
  | xPosition => "MOTION_X_POSITION"
  | yPosition => "MOTION_Y_POSITION"
  | direction => "MOTION_DIRECTION"
  | sayFor => "LOOKS_SAY_FOR_SECS"
  | say => "LOOKS_SAY"
  | thinkFor => "LOOKS_THINK_FOR_SECS"
  | think => "LOOKS_THINK"
  | switchCostume => "LOOKS_SWITCH_COSTUME"
  | nextCostume => "LOOKS_NEXT_COSTUME"
  | changeSize => "LOOKS_CHANGE_SIZE_BY"
  | setSize => "LOOKS_SET_SIZE"
  | showSprite => "LOOKS_SHOW"
  | hideSprite => "LOOKS_HIDE"
  | costumeNumber => "LOOKS_COSTUME_NUMBER"
  | size => "LOOKS_SIZE"
  | playSound => "SOUND_PLAY"
  | playSoundUntilDone => "SOUND_PLAY_UNTIL_DONE"
  | stopSounds => "SOUND_STOP_ALL"
  | changeVolume => "SOUND_CHANGE_VOLUME_BY"
  | setVolume => "SOUND_SET_VOLUME"
  | volume => "SOUND_VOLUME"
  | whenFlagClicked => "EVENTS_WHEN_FLAG_CLICKED"
  | whenSpriteClicked => "EVENTS_WHEN_SPRITE_CLICKED"
  | broadcast => "EVENTS_BROADCAST"
  | whenReceived => "EVENTS_WHEN_I_RECEIVE"
  | wait => "CONTROL_WAIT"
  | repeatTimes => "CONTROL_REPEAT"
  | forever => "CONTROL_FOREVER"
  | ifThen => "CONTROL_IF"
  | waitUntil => "CONTROL_WAIT_UNTIL"
  | ask => "SENSING_ASK_AND_WAIT"
  | touching => "SENSING_TOUCHING"
  | keyPressed => "SENSING_KEY_PRESSED"
  | answer => "SENSING_ANSWER"
  | mouseX => "SENSING_MOUSE_X"
  | mouseY => "SENSING_MOUSE_Y"
  | add => "OPERATORS_ADD"
  | subtract => "OPERATORS_SUBTRACT"
  | multiply => "OPERATORS_MULTIPLY"
  | divide => "OPERATORS_DIVIDE"
  | pickRandom => "OPERATORS_RANDOM"
  | greater => "OPERATORS_GT"
  | less => "OPERATORS_LT"
  | equals => "OPERATORS_EQUALS"
  | both => "OPERATORS_AND"
  | either => "OPERATORS_OR"
  | negation => "OPERATORS_NOT"
  | join => "OPERATORS_JOIN"
  | letterOf => "OPERATORS_LETTER_OF"
  | length => "OPERATORS_LENGTH"
  | contains => "OPERATORS_CONTAINS"
  | remainder => "OPERATORS_MOD"
  | round => "OPERATORS_ROUND"
  | function => "OPERATORS_MATH_OP"
  | setVariable => "VARIABLES_SET"
  | changeVariable => "VARIABLES_CHANGE"
  | readVariable => "VARIABLES_REPORTER"
  | defineScript => "MYBLOCKS_DEFINE"
  | runScript => "MYBLOCKS_RUN"
  | eraseAll => "PEN_ERASE_ALL"
  | penDown => "PEN_DOWN"
  | penUp => "PEN_UP"
  | setPenColor => "PEN_SET_COLOR"
  | setPenSize => "PEN_SET_SIZE"
  | createObject => "THREED_CREATE_OBJECT"

def capitalized : List Char → List Char
  | [] => []
  | c :: rest => c :: rest.map Char.toLower

/-- The identifier with its words in title case and nothing between them. -/
def titleName (k : BlockKind) : String :=
  .ofList ((k.identifier.toList.splitOn '_').flatMap capitalized)

def shape : BlockKind → Shape
  | whenFlagClicked | whenSpriteClicked | whenReceived => .hat
  | xPosition | yPosition | direction | costumeNumber | size | volume | touching | keyPressed
  | answer | mouseX | mouseY | add | subtract | multiply | divide | pickRandom | greater | less
  | equals | both | either | negation | join | letterOf | length | contains | remainder | round
  | function | readVariable => .reporter
  | repeatTimes | forever | ifThen | defineScript => .wrap
  | _ => .stack

end BlockKind

end BlockScript
